import Mathlib.Algebra.Order.Ring.Unbundled.Rat
import Mtrtk.BaseMode
import Mtrtk.Mean
import Mtrtk.Run

/-!
# The history sampler

`store/sampler.py` : a row of `samples_1s` for each receiver second (`sampleRow`), and when an epoch
falls in another minute, a row of `samples_1m` with the aggregate of the minute that was in progress
(`rollupMinute`).

`ts` is a whole number of seconds in both tables, the other columns are exact rationals or NULL. A
table is the list of its rows, with no two of one `ts` : `insertOrReplace` takes the older one out.
What a failed write does, and what is said of it, is not modelled.
-/

namespace Mtrtk

namespace Sampler

/-! ## Tables with a key -/

section Keyed

variable {α κ : Type*} [DecidableEq κ]

/-- `INSERT OR REPLACE`. -/
def insertOrReplace (key : α → κ) (row : α) (rows : List α) : List α :=
  rows.filter (fun r => key r ≠ key row) ++ [row]

/-- The row of a key. -/
def rowAt (key : α → κ) (rows : List α) (k : κ) : Option α := rows.find? fun r => key r = k

variable {key : α → κ} {row : α} {rows : List α} {k : κ}

theorem mem_insertOrReplace {r : α} :
    r ∈ insertOrReplace key row rows ↔ (r ∈ rows ∧ key r ≠ key row) ∨ r = row := by
  simp [insertOrReplace]

theorem nodup_insertOrReplace (h : (rows.map key).Nodup) (row : α) :
    ((insertOrReplace key row rows).map key).Nodup := by
  rw [insertOrReplace, List.map_append, List.map_singleton]
  refine (h.sublist (List.filter_sublist.map key)).append (List.nodup_singleton _) ?_
  simp [List.disjoint_singleton]

theorem rowAt_insertOrReplace :
    rowAt key (insertOrReplace key row rows) k =
      if key row = k then some row else rowAt key rows k := by
  have hold : (rows.filter fun r => key r ≠ key row).find? (fun r => key r = k) =
      if key row = k then none else rows.find? fun r => key r = k := by
    induction rows with
    | nil => simp
    | cons r rows ih =>
      rw [List.filter_cons]
      by_cases hr : key r = key row
      · rw [if_neg (by simp [hr]), ih]
        split
        next => rfl
        next h => rw [List.find?_cons_of_neg (by simpa [hr] using h)]
      · rw [if_pos (by simpa using hr), List.find?_cons, List.find?_cons, ih]
        by_cases hk : key r = k
        · have hne : ¬key row = k := fun h => hr (hk.trans h.symm)
          simp [hk, hne]
        · simp [hk]
  rw [rowAt, insertOrReplace, List.find?_append, hold]
  split
  next h => simp [h]
  next h => simp [rowAt, h]

/-- Rows chosen without the replaced one and the new one are the same. -/
theorem filter_insertOrReplace {p : α → Bool} (hrow : p row = false)
    (hold : ∀ r, key r = key row → p r = false) :
    (insertOrReplace key row rows).filter p = rows.filter p := by
  rw [insertOrReplace, List.filter_append, List.filter_filter, List.filter_singleton, hrow,
    cond_false, List.append_nil]
  refine List.filter_congr fun r _ => ?_
  by_cases hr : key r = key row
  · simp [hr, hold r hr]
  · simp [hr]

end Keyed

/-! ## A sample -/

/-- `SAMPLE_COLUMNS`, but for `ts`. -/
inductive Column
  | lat | lon | heightM | hmslM | hAccM | vAccM | fixType | carrSoln | nsatUsed | nsatTracked
  | pdop | hdop | vdop | cnoMean | jamInd | agcCnt | noisePerMs | corrAgeS | baselineM
  | rtcmBytesPerS | ntripClients | cpuPct | memPct | diskFreeGb | tempC
  deriving DecidableEq, Repr

/-- What `sample_row` reads of `Satellite`. -/
structure Satellite where
  cno : ℤ
  used : Bool

/-- What `sample_row` reads of `Hardware`. -/
structure Hardware where
  jamInd : ℤ
  agcCnt : ℤ
  noisePerMs : ℤ

/-- What `sample_row` reads of `ReceiverState`. -/
structure ReceiverState where
  utc : Option ℚ := none
  lat : Option ℚ := none
  lon : Option ℚ := none
  heightM : Option ℚ := none
  hmslM : Option ℚ := none
  hAccM : Option ℚ := none
  vAccM : Option ℚ := none
  fixType : ℤ := 0
  carrSoln : ℤ := 0
  satUsed : ℤ := 0
  satTracked : ℤ := 0
  dopsP : Option ℚ := none
  dopsH : Option ℚ := none
  dopsV : Option ℚ := none
  sats : List Satellite := []
  hardware : Option Hardware := none
  corrAgeS : Option ℚ := none
  baselineM : Option ℚ := none
  bytesPerS : ℚ := 0

/-- What `sample_row` reads of `SystemStats`. -/
structure SystemStats where
  cpuPct : ℚ
  memPct : ℚ
  diskFreeGb : ℚ
  tempC : Option ℚ

/-- A row of `samples_1s`. -/
structure SampleRow where
  ts : ℤ
  values : Column → Option ℚ

/-- `sample_row`. -/
def sampleRow (state : ReceiverState) (system : Option SystemStats) (ntripClients : ℕ) :
    Option SampleRow :=
  state.utc.map fun utc =>
    let usedCno := state.sats.filterMap fun s =>
      if s.used ∧ 0 < s.cno then some (s.cno : ℚ) else none
    { ts := pyRound utc
      values := fun
        | .lat => state.lat
        | .lon => state.lon
        | .heightM => state.heightM
        | .hmslM => state.hmslM
        | .hAccM => state.hAccM
        | .vAccM => state.vAccM
        | .fixType => some state.fixType
        | .carrSoln => some state.carrSoln
        | .nsatUsed => some state.satUsed
        | .nsatTracked => some state.satTracked
        | .pdop => state.dopsP
        | .hdop => state.dopsH
        | .vdop => state.dopsV
        | .cnoMean => mean usedCno
        | .jamInd => state.hardware.map fun hw => hw.jamInd
        | .agcCnt => state.hardware.map fun hw => hw.agcCnt
        | .noisePerMs => state.hardware.map fun hw => hw.noisePerMs
        | .corrAgeS => state.corrAgeS
        | .baselineM => state.baselineM
        | .rtcmBytesPerS => some state.bytesPerS
        | .ntripClients => some ntripClients
        | .cpuPct => system.map SystemStats.cpuPct
        | .memPct => system.map SystemStats.memPct
        | .diskFreeGb => system.map SystemStats.diskFreeGb
        | .tempC => system.bind SystemStats.tempC }

/-! ## A rollup -/

/-- `AVG`, `MIN` and `MAX`, which leave out what is NULL. -/
inductive Aggregate
  | avg | min | max
  deriving DecidableEq, Repr

def Aggregate.of (known : List ℚ) : Aggregate → Option ℚ
  | .avg => mean known
  | .min => known.min?
  | .max => known.max?

/-- The columns of `samples_1m` after `ts` and `n`, with what `_ROLLUP_1M` puts in them. -/
def rollupColumns : List (String × Aggregate × Column) :=
  [("lat_avg", .avg, .lat), ("lon_avg", .avg, .lon), ("height_avg", .avg, .heightM),
    ("h_acc_avg", .avg, .hAccM), ("h_acc_max", .max, .hAccM), ("v_acc_avg", .avg, .vAccM),
    ("v_acc_max", .max, .vAccM), ("fix_type_min", .min, .fixType),
    ("carr_soln_min", .min, .carrSoln), ("nsat_used_avg", .avg, .nsatUsed),
    ("nsat_used_min", .min, .nsatUsed), ("nsat_tracked_avg", .avg, .nsatTracked),
    ("pdop_avg", .avg, .pdop), ("pdop_max", .max, .pdop), ("cno_mean_avg", .avg, .cnoMean),
    ("jam_ind_max", .max, .jamInd), ("agc_cnt_avg", .avg, .agcCnt),
    ("noise_per_ms_avg", .avg, .noisePerMs), ("corr_age_max", .max, .corrAgeS),
    ("baseline_avg", .avg, .baselineM), ("rtcm_bytes_avg", .avg, .rtcmBytesPerS),
    ("ntrip_clients_max", .max, .ntripClients), ("cpu_pct_avg", .avg, .cpuPct),
    ("mem_pct_avg", .avg, .memPct), ("disk_free_gb_min", .min, .diskFreeGb),
    ("temp_c_max", .max, .tempC)]

/-- A row of `samples_1m`. -/
structure RollupRow where
  ts : ℤ
  n : ℕ
  values : List (String × Option ℚ)
  deriving DecidableEq

/-- The row of `_ROLLUP_1M`. -/
def rollupRow (start : ℤ) (rows : List SampleRow) : RollupRow where
  ts := start
  n := rows.length
  values := rollupColumns.map fun c =>
    (c.1, c.2.1.of (rows.filterMap fun row => row.values c.2.2))

/-- `WHERE ts >= ? AND ts < ?`, a minute from `start`. -/
def minuteRows (rows : List SampleRow) (start : ℤ) : List SampleRow :=
  rows.filter fun row => start ≤ row.ts ∧ row.ts < start + 60

/-! ## The sampler -/

/-- `Sampler`, and the two tables. -/
structure State where
  system : Option SystemStats := none
  ntripClients : ℕ := 0
  currentMinute : Option ℤ := none
  lastPrune : ℚ := 0
  samples1s : List SampleRow := []
  samples1m : List RollupRow := []

/-- `keep_1s_s`, `keep_1m_s`. -/
structure Retention where
  keep1sS : ℚ
  keep1mS : ℚ

/-- `_PRUNE_INTERVAL_S`. -/
def pruneInterval : ℚ := 3600

/-- What `run` takes from its subscription, with the reading of the clock after it. -/
inductive Message
  | systemStats (stats : SystemStats)
  | ntripClients (count : ℕ)
  | epoch (state : ReceiverState) (now : ℚ)

namespace State

variable (s : State)

/-- `insert`. -/
def insert (row : SampleRow) : State :=
  { s with samples1s := insertOrReplace SampleRow.ts row s.samples1s }

/-- `rollup_minute`. -/
def rollupMinute (minuteTs : ℤ) : State :=
  let start := minuteTs / 60 * 60
  let rows := minuteRows s.samples1s start
  if rows.length = 0 then s
  else { s with samples1m := insertOrReplace RollupRow.ts (rollupRow start rows) s.samples1m }

/-- `prune`, of the samples. -/
def prune (keep : Retention) (nowTs : ℤ) : State :=
  { s with
    samples1s := s.samples1s.filter fun row => ¬(row.ts : ℚ) < nowTs - keep.keep1sS
    samples1m := s.samples1m.filter fun row => ¬(row.ts : ℚ) < nowTs - keep.keep1mS }

/-- Whether the sampler prunes after an epoch. -/
def prunes (now : ℚ) : Bool := pruneInterval < now - s.lastPrune

/-- `_on_epoch`, when the row is in : the minute that was in progress is rolled up once it is
another one. -/
def enterMinute (minute : ℤ) : State :=
  match s.currentMinute with
  | none => { s with currentMinute := some minute }
  | some previous =>
    if minute ≠ previous then
      { s.rollupMinute (previous * 60) with currentMinute := some minute }
    else { s with currentMinute := some minute }

/-- `_on_epoch`, at its end. -/
def pruneWhenDue (keep : Retention) (nowTs : ℤ) (now : ℚ) : State :=
  if s.prunes now then { s.prune keep nowTs with lastPrune := now } else s

/-- `_on_epoch`. -/
def onEpoch (keep : Retention) (state : ReceiverState) (now : ℚ) : State :=
  match sampleRow state s.system s.ntripClients with
  | none => s
  | some row => ((s.insert row).enterMinute (row.ts / 60)).pruneWhenDue keep row.ts now

/-- `_handle`. -/
def handle (keep : Retention) : Message → State
  | .systemStats stats => { s with system := some stats }
  | .ntripClients count => { s with ntripClients := count }
  | .epoch state now => s.onEpoch keep state now

/-- `_final_rollup`. -/
def finalRollup : State :=
  match s.currentMinute with
  | none => s
  | some minute => s.rollupMinute (minute * 60)

/-- A message for which the sampler does not prune. -/
def unpruned : Message → Bool
  | .epoch state now => state.utc = none ∨ ¬s.prunes now
  | _ => true

end State

end Sampler

end Mtrtk
