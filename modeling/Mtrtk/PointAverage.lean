import Mathlib.Algebra.Order.Field.Rat
import Mathlib.Data.List.Chain
import Mtrtk.Mean
import Mtrtk.Text

/-!
# The average of a surveyed point

`rover/points.py` : which epochs `PointCollector` accepts, and what it keeps of them (`Averages`,
that is what `_reset` clears). Numbers are exact rationals, the square root and the geodetic
conversions given functions.

`Averages.Collected` says what there is after a list of epochs : the accumulators are the minimum,
the maxima, the known heights and the offsets of the whole list, from the first of it and from no
other (`Collected.accept`). So what they average to is the mean of its positions
(`Collected.meanLlh_eq`).
-/

namespace Mtrtk

namespace PointCollector

/-- What `PointCollector` reads of `ReceiverState`. -/
structure ReceiverState where
  lat : Option ℚ := none
  lon : Option ℚ := none
  heightM : Option ℚ := none
  hmslM : Option ℚ := none
  invalidLlh : Bool := false
  hAccM : Option ℚ := none
  vAccM : Option ℚ := none
  fixType : ℕ := 0
  gnssFixOk : Bool := false
  carrSoln : ℤ := 0
  utc : Option ℤ := none
  itowMs : Option ℤ := none
  deriving DecidableEq

abbrev Vec := ℚ × ℚ × ℚ

/-- `core/geo.py`, and `math.sqrt`. -/
structure Geo where
  llhToEcef : Vec → Vec
  ecefToEnu : Vec → Vec → Vec
  ecefToLlh : Vec → Vec
  sqrt : ℚ → ℚ

/-! ## Which epochs count -/

/-- `CARR_FIXED`. -/
def carrFixed : ℤ := 2

/-- `FIX_3D_TYPES`. -/
def fix3dTypes : List ℕ := [3, 4]

/-- `_FIX_RANK`, on the types of `fix3dTypes`. -/
def fixRank (fixType : ℕ) : ℕ := if fixType = 3 then 1 else 0

namespace ReceiverState

/-- The position, where it has all of it. -/
def llh (e : ReceiverState) : Option Vec :=
  match e.lat, e.lon, e.heightM with
  | some lat, some lon, some heightM => some (lat, lon, heightM)
  | _, _, _ => none

/-- `_usable`, but for the repeat. -/
def fits (e : ReceiverState) (fixedOnly : Bool) : Bool :=
  e.llh.isSome && !e.invalidLlh && (e.fixType ∈ fix3dTypes && e.gnssFixOk) &&
    (!fixedOnly || e.carrSoln = carrFixed)

/-- `_repeats_last`, where there is a last one. -/
def repeats (last e : ReceiverState) : Bool :=
  if e.itowMs.isSome || last.itowMs.isSome then e.itowMs = last.itowMs
  else e.utc.isSome && e.utc = last.utc

end ReceiverState

/-! ## The accumulators -/

/-- What `_reset` sets. -/
structure Averages where
  sessionId : Option ℕ := none
  code : Option String := none
  note : Option String := none
  fixedOnly : Bool
  refLlh : Option Vec := none
  refXyz : Vec := (0, 0, 0)
  e : List ℚ := []
  n : List ℚ := []
  u : List ℚ := []
  dxyz : List Vec := []
  hmsl : List ℚ := []
  last : Option ReceiverState := none
  fixType : ℕ := 0
  carrSoln : ℤ := 0
  hAcc : Option ℚ := none
  vAcc : Option ℚ := none

/-- `_worst`. -/
def worst : Option ℚ → Option ℚ → Option ℚ
  | none, value => value
  | some current, none => some current
  | some current, some value => some (max current value)

/-- `_sd`. -/
def sd (geo : Geo) (values : List ℚ) : ℚ :=
  if values.length < 2 then 0
  else
    let mean := values.sum / values.length
    geo.sqrt ((values.map fun v => (v - mean) ^ 2).sum / (values.length - 1))

namespace Averages

variable (geo : Geo) (a : Averages)

/-- `_usable`. -/
def usable (e : ReceiverState) : Bool :=
  e.fits a.fixedOnly && !a.last.any (ReceiverState.repeats · e)

/-- `_track_quality`. -/
def trackQuality (e : ReceiverState) : Averages :=
  { a with
    fixType :=
      if a.last.isNone || fixRank e.fixType < fixRank a.fixType then e.fixType else a.fixType
    carrSoln := if a.last.isNone then e.carrSoln else min a.carrSoln e.carrSoln
    hAcc := worst a.hAcc e.hAccM
    vAcc := worst a.vAcc e.vAccM }

/-- What `on_epoch` adds of an epoch at `llh`. -/
def accept (e : ReceiverState) (llh : Vec) : Averages :=
  let xyz := geo.llhToEcef llh
  let ref := a.refLlh.getD llh
  let refXyz := if a.refLlh.isNone then xyz else a.refXyz
  let enu := geo.ecefToEnu ref xyz
  let a := { a with
    refLlh := some ref
    refXyz
    e := a.e ++ [enu.1]
    n := a.n ++ [enu.2.1]
    u := a.u ++ [enu.2.2]
    dxyz := a.dxyz ++ [(xyz.1 - refXyz.1, xyz.2.1 - refXyz.2.1, xyz.2.2 - refXyz.2.2)]
    hmsl := a.hmsl ++ e.hmslM.toList }
  { a.trackQuality e with last := some e }

/-- The mean position. -/
def meanLlh : Vec :=
  let count : ℚ := a.dxyz.length
  geo.ecefToLlh
    (a.refXyz.1 + (a.dxyz.map (·.1)).sum / count, a.refXyz.2.1 + (a.dxyz.map (·.2.1)).sum / count,
      a.refXyz.2.2 + (a.dxyz.map (·.2.2)).sum / count)

end Averages

/-! ## What epochs make -/

section Positions

variable (geo : Geo) (epochs : List ReceiverState)

/-- Where the epochs were. -/
def positions : List Vec := epochs.filterMap ReceiverState.llh

def xyzs : List Vec := (positions epochs).map geo.llhToEcef

/-- The mean of the positions, taken in ECEF. -/
def meanPosition : Vec :=
  let count : ℚ := (xyzs geo epochs).length
  geo.ecefToLlh
    (((xyzs geo epochs).map (·.1)).sum / count, ((xyzs geo epochs).map (·.2.1)).sum / count,
      ((xyzs geo epochs).map (·.2.2)).sum / count)

/-- East, north and up of the positions, from the first of them. -/
def enus : List Vec :=
  match (positions epochs).head? with
  | none => []
  | some ref => (xyzs geo epochs).map (geo.ecefToEnu ref)

end Positions

namespace Averages

variable (geo : Geo) (a : Averages)

/-- What there is after these epochs. -/
structure Collected (epochs : List ReceiverState) : Prop where
  refLlh : a.refLlh = (positions epochs).head?
  refXyz : ∀ llh, a.refLlh = some llh → a.refXyz = geo.llhToEcef llh
  e : a.e = (enus geo epochs).map (·.1)
  n : a.n = (enus geo epochs).map (·.2.1)
  u : a.u = (enus geo epochs).map (·.2.2)
  dxyz : a.dxyz = (xyzs geo epochs).map fun xyz =>
    (xyz.1 - a.refXyz.1, xyz.2.1 - a.refXyz.2.1, xyz.2.2 - a.refXyz.2.2)
  fits : ∀ e ∈ epochs, e.fits a.fixedOnly = true
  apart : epochs.IsChain fun last e => ReceiverState.repeats last e = false
  last : a.last = epochs.getLast?
  hmsl : a.hmsl = epochs.filterMap (·.hmslM)
  fixType : epochs ≠ [] → (∃ e ∈ epochs, e.fixType = a.fixType) ∧
    ∀ e ∈ epochs, fixRank a.fixType ≤ fixRank e.fixType
  carrSoln : epochs ≠ [] → (∃ e ∈ epochs, e.carrSoln = a.carrSoln) ∧
    ∀ e ∈ epochs, a.carrSoln ≤ e.carrSoln
  hAcc : a.hAcc = (epochs.filterMap (·.hAccM)).max?
  vAcc : a.vAcc = (epochs.filterMap (·.vAccM)).max?

end Averages

/-- The running maximum is the maximum. -/
theorem worst_max? (known : List ℚ) (value : Option ℚ) :
    worst known.max? value = (known ++ value.toList).max? := by
  cases value with
  | none => cases known <;> simp [worst]
  | some v =>
    cases known with
    | nil => rfl
    | cons w rest =>
      rw [Option.toList_some, List.cons_append, List.max?_cons', List.max?_cons', List.foldl_append]
      rfl

theorem filterMap_concat {α : Type} (f : ReceiverState → Option α) (epochs : List ReceiverState)
    (e : ReceiverState) : (epochs ++ [e]).filterMap f = epochs.filterMap f ++ (f e).toList := by
  rw [List.filterMap_append]
  cases h : f e <;> simp [h]

variable {geo : Geo} {a : Averages} {epochs : List ReceiverState} {e : ReceiverState} {llh : Vec}

theorem positions_concat (hllh : e.llh = some llh) :
    positions (epochs ++ [e]) = positions epochs ++ [llh] := by
  rw [positions, filterMap_concat, hllh]
  rfl

theorem xyzs_concat (hllh : e.llh = some llh) :
    xyzs geo (epochs ++ [e]) = xyzs geo epochs ++ [geo.llhToEcef llh] := by
  rw [xyzs, positions_concat hllh, List.map_append]
  rfl

/-- The first position stays the reference, and the first epoch is its own. -/
theorem enus_concat (hllh : e.llh = some llh) :
    enus geo (epochs ++ [e]) = enus geo epochs ++
      [geo.ecefToEnu ((positions epochs).head?.getD llh) (geo.llhToEcef llh)] := by
  cases hpositions : positions epochs with
  | nil => simp [enus, xyzs, positions_concat hllh, hpositions]
  | cons ref rest => simp [enus, xyzs, positions_concat hllh, hpositions]

theorem llh_of_fits {fixedOnly : Bool} (h : e.fits fixedOnly = true) : ∃ llh, e.llh = some llh := by
  simp only [ReceiverState.fits, Bool.and_eq_true] at h
  exact Option.isSome_iff_exists.1 h.1.1.1

namespace Averages

theorem Collected.nil (geo : Geo) (fixedOnly : Bool) (sessionId : Option ℕ)
    (code note : Option String) : Collected geo { sessionId, code, note, fixedOnly } [] := by
  constructor <;> simp [positions, enus, xyzs]

/-- The offsets average to the mean of the positions. -/
theorem Collected.meanLlh_eq (h : a.Collected geo epochs) (hne : epochs ≠ []) :
    a.meanLlh geo = meanPosition geo epochs := by
  have hxyzs : xyzs geo epochs ≠ [] := by
    obtain ⟨e, rest, rfl⟩ := List.exists_cons_of_ne_nil hne
    obtain ⟨llh, hllh⟩ := llh_of_fits (h.fits e List.mem_cons_self)
    simp [xyzs, positions, hllh]
  have hoffsets : ∀ (f : Vec → ℚ) (ref : ℚ),
      ref + ((xyzs geo epochs).map fun xyz => f xyz - ref).sum / (xyzs geo epochs).length =
        ((xyzs geo epochs).map f).sum / (xyzs geo epochs).length := fun f ref => by
    have hmap : (xyzs geo epochs).map f ≠ [] := by simpa using hxyzs
    have hmean := add_mean_offsets hmap ref
    rwa [List.map_map, List.length_map] at hmean
  simp only [meanLlh, meanPosition, h.dxyz, List.map_map, List.length_map]
  exact congrArg geo.ecefToLlh (Prod.ext (hoffsets (·.1) _)
    (Prod.ext (hoffsets (·.2.1) _) (hoffsets (·.2.2) _)))

theorem Collected.last_isNone (h : a.Collected geo epochs) : a.last.isNone ↔ epochs = [] := by
  rw [h.last, Option.isNone_iff_eq_none, List.getLast?_eq_none_iff]

/-- The fix type stays one of the worst. -/
theorem Collected.fixType_accept (h : a.Collected geo epochs) :
    (∃ d ∈ epochs ++ [e], d.fixType = (a.accept geo e llh).fixType) ∧
      ∀ d ∈ epochs ++ [e], fixRank (a.accept geo e llh).fixType ≤ fixRank d.fixType := by
  have haccept : (a.accept geo e llh).fixType =
      if a.last.isNone || fixRank e.fixType < fixRank a.fixType then e.fixType else a.fixType := rfl
  rw [haccept]
  by_cases hnil : epochs = []
  · simp [h.last_isNone.2 hnil, hnil]
  · have hlast : a.last.isNone = false := Bool.eq_false_iff.2 (mt h.last_isNone.1 hnil)
    obtain ⟨⟨d, hd, hworst⟩, hleast⟩ := h.fixType hnil
    rw [hlast, Bool.false_or]
    split
    next hlt =>
      have hlt : fixRank e.fixType < fixRank a.fixType := by simpa using hlt
      refine ⟨⟨e, by simp, rfl⟩, fun d' hd' => ?_⟩
      rcases List.mem_append.1 hd' with hd' | hd'
      · exact hlt.le.trans (hleast d' hd')
      · rw [List.mem_singleton.1 hd']
    next hle =>
      have hle : fixRank a.fixType ≤ fixRank e.fixType := by simpa using hle
      refine ⟨⟨d, List.mem_append_left _ hd, hworst⟩, fun d' hd' => ?_⟩
      rcases List.mem_append.1 hd' with hd' | hd'
      · exact hleast d' hd'
      · rwa [List.mem_singleton.1 hd']

/-- The carrier solution stays the least. -/
theorem Collected.carrSoln_accept (h : a.Collected geo epochs) :
    (∃ d ∈ epochs ++ [e], d.carrSoln = (a.accept geo e llh).carrSoln) ∧
      ∀ d ∈ epochs ++ [e], (a.accept geo e llh).carrSoln ≤ d.carrSoln := by
  have haccept : (a.accept geo e llh).carrSoln =
      if a.last.isNone then e.carrSoln else min a.carrSoln e.carrSoln := rfl
  rw [haccept]
  by_cases hnil : epochs = []
  · simp [h.last_isNone.2 hnil, hnil]
  · have hlast : a.last.isNone = false := Bool.eq_false_iff.2 (mt h.last_isNone.1 hnil)
    obtain ⟨⟨d, hd, hworst⟩, hleast⟩ := h.carrSoln hnil
    rw [hlast, if_neg (by simp)]
    refine ⟨?_, fun d' hd' => ?_⟩
    · rcases le_total a.carrSoln e.carrSoln with hle | hle
      · exact ⟨d, List.mem_append_left _ hd, by rw [min_eq_left hle, hworst]⟩
      · exact ⟨e, by simp, (min_eq_right hle).symm⟩
    · rcases List.mem_append.1 hd' with hd' | hd'
      · exact (min_le_left _ _).trans (hleast d' hd')
      · rw [List.mem_singleton.1 hd']
        exact min_le_right _ _

theorem Collected.refLlh_accept (h : a.Collected geo epochs) (hllh : e.llh = some llh) :
    (a.accept geo e llh).refLlh = (positions (epochs ++ [e])).head? := by
  have haccept : (a.accept geo e llh).refLlh = some (a.refLlh.getD llh) := rfl
  rw [haccept, h.refLlh, positions_concat hllh]
  cases positions epochs <;> rfl

theorem Collected.refXyz_accept (h : a.Collected geo epochs) (ref : Vec)
    (href : (a.accept geo e llh).refLlh = some ref) :
    (a.accept geo e llh).refXyz = geo.llhToEcef ref := by
  have haccept : (a.accept geo e llh).refXyz =
      if a.refLlh.isNone then geo.llhToEcef llh else a.refXyz := rfl
  obtain rfl : a.refLlh.getD llh = ref := Option.some.inj href
  rw [haccept]
  cases hfirst : a.refLlh with
  | none => rfl
  | some first => exact h.refXyz first hfirst

/-- The offsets taken before the first position is known are none. -/
theorem Collected.dxyz_accept (h : a.Collected geo epochs) (hllh : e.llh = some llh) :
    (a.accept geo e llh).dxyz = (xyzs geo (epochs ++ [e])).map fun xyz =>
      (xyz.1 - (a.accept geo e llh).refXyz.1, xyz.2.1 - (a.accept geo e llh).refXyz.2.1,
        xyz.2.2 - (a.accept geo e llh).refXyz.2.2) := by
  have haccept : (a.accept geo e llh).refXyz =
      if a.refLlh.isNone then geo.llhToEcef llh else a.refXyz := rfl
  rw [xyzs_concat hllh, List.map_append]
  cases hfirst : a.refLlh with
  | none =>
    have hxyzs : xyzs geo epochs = [] := by
      rw [xyzs, List.map_eq_nil_iff]
      exact List.head?_eq_none_iff.1 (h.refLlh.symm.trans hfirst)
    have hdxyz : a.dxyz = [] := by rw [h.dxyz, hxyzs, List.map_nil]
    simp [Averages.accept, Averages.trackQuality, hfirst, hxyzs, hdxyz]
  | some first =>
    rw [haccept, hfirst, Option.isNone_some, if_neg (by simp), ← h.dxyz]
    simp [Averages.accept, Averages.trackQuality, hfirst]

/-- An epoch more. -/
theorem Collected.accept (h : a.Collected geo epochs) (husable : a.usable e = true)
    (hllh : e.llh = some llh) : (a.accept geo e llh).Collected geo (epochs ++ [e]) := by
  simp only [usable, Bool.and_eq_true, Bool.not_eq_true'] at husable
  obtain ⟨hfits, hrepeats⟩ := husable
  refine ⟨h.refLlh_accept hllh, h.refXyz_accept, ?_, ?_, ?_, h.dxyz_accept hllh, fun d hd => ?_, ?_,
    by simp [Averages.accept], ?_, fun _ => ?_, fun _ => ?_, ?_, ?_⟩
  · rw [enus_concat hllh, List.map_append, ← h.e, ← h.refLlh]
    rfl
  · rw [enus_concat hllh, List.map_append, ← h.n, ← h.refLlh]
    rfl
  · rw [enus_concat hllh, List.map_append, ← h.u, ← h.refLlh]
    rfl
  · rcases List.mem_append.1 hd with hd | hd
    · exact h.fits d hd
    · rw [List.mem_singleton.1 hd]
      exact hfits
  · refine List.isChain_append.2 ⟨h.apart, List.isChain_singleton _, fun d hd d' hd' => ?_⟩
    obtain rfl : e = d' := by simpa using hd'
    rw [h.last, Option.mem_def.1 hd] at hrepeats
    simpa using hrepeats
  · rw [filterMap_concat, ← h.hmsl]
    rfl
  · exact h.fixType_accept
  · exact h.carrSoln_accept
  · rw [filterMap_concat, ← worst_max?, ← h.hAcc]
    rfl
  · rw [filterMap_concat, ← worst_max?, ← h.vAcc]
    rfl

end Averages

end PointCollector

end Mtrtk
