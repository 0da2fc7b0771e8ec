import Mathlib.Data.List.Induction
import Mathlib.Data.Prod.Lex
import Mathlib.Data.Rat.Defs
import Mtrtk.Keyed

/-!
# The satellites of an epoch

`core/statestore.py` : NAV-SAT and NAV-SIG of one iTOW together make the list of satellites. Each
message updates the record of every satellite it reports in a dictionary, which begins anew when the
iTOW changes, and then the list is sorted and counted again (`finalizeSats`).

NAV-SAT writes fields that NAV-SIG does not, so the two commute on a record (`navSat_navSig_comm`),
and the sorted list does not depend on the order in which records were added. `satellites_assembled`
is that, and what the list and the summary are after any messages (`Assembled`).
-/

namespace Mtrtk

/-! ## The state -/

/-- `GNSS_NAMES`. -/
def gnssNames : List (ℕ × String) :=
  [(0, "GPS"), (1, "SBAS"), (2, "Galileo"), (3, "BeiDou"), (4, "IMES"), (5, "QZSS"), (6, "GLONASS"),
    (7, "NavIC")]

/-- `SIGNAL_NAMES`. -/
def signalNames : List ((ℕ × ℕ) × String) :=
  [((0, 0), "L1C/A"), ((0, 3), "L2CL"), ((0, 4), "L2CM"), ((0, 6), "L5I"), ((0, 7), "L5Q"),
    ((1, 0), "L1C/A"), ((2, 0), "E1C"), ((2, 1), "E1B"), ((2, 3), "E5aI"), ((2, 4), "E5aQ"),
    ((2, 5), "E5bI"), ((2, 6), "E5bQ"), ((3, 0), "B1I D1"), ((3, 1), "B1I D2"), ((3, 2), "B2I D1"),
    ((3, 3), "B2I D2"), ((3, 5), "B1C"), ((3, 7), "B2a"), ((5, 0), "L1C/A"), ((5, 1), "L1S"),
    ((5, 4), "L2CM"), ((5, 5), "L2CL"), ((5, 8), "L5I"), ((5, 9), "L5Q"), ((6, 0), "L1OF"),
    ((6, 2), "L2OF"), ((7, 0), "L5A")]

/-- `signal_name`. -/
def signalName (gnssId sigId : ℕ) : String :=
  (signalNames.lookup (gnssId, sigId)).getD ("sig" ++ toString sigId)

/-- `Signal`. -/
structure Signal where
  sigId : ℕ
  name : String
  freqId : ℕ := 0
  cno : ℕ := 0
  prResM : ℚ := 0
  qualityInd : ℕ := 0
  corrSource : ℕ := 0
  ionoModel : ℕ := 0
  health : ℕ := 0
  prUsed : Bool := false
  crUsed : Bool := false
  doUsed : Bool := false
  deriving DecidableEq

/-- `Satellite`. -/
structure Satellite where
  gnssId : ℕ
  gnss : String
  svId : ℕ
  cno : ℕ := 0
  elev : Option ℤ := none
  azim : Option ℤ := none
  prResM : ℚ := 0
  qualityInd : ℕ := 0
  used : Bool := false
  health : ℕ := 0
  diffCorr : Bool := false
  smoothed : Bool := false
  orbitSource : ℕ := 0
  ephAvail : Bool := false
  almAvail : Bool := false
  signals : List Signal := []
  deriving DecidableEq

/-- `key`, which satellites are sorted by. -/
def Satellite.key (sat : Satellite) : ℕ ×ₗ ℕ := toLex (sat.gnssId, sat.svId)

/-- The counts of a constellation in `per_gnss`. -/
structure GnssCount where
  gnss : String
  tracked : ℕ := 0
  used : ℕ := 0
  deriving DecidableEq

/-- `SatSummary`. -/
structure SatSummary where
  tracked : ℕ := 0
  used : ℕ := 0
  perGnss : List GnssCount := []
  deriving DecidableEq

/-- `_sat_epoch` : a dictionary of the satellites by their key. -/
structure SatEpoch where
  sats : List Satellite
  nodup : (sats.map Satellite.key).Nodup

/-- No satellite yet. -/
def SatEpoch.empty : SatEpoch := ⟨[], List.nodup_nil⟩

/-- `StateStore`, as far as satellites go. -/
structure SatStore where
  satItow : Option ℕ := none
  satEpoch : SatEpoch := .empty
  sats : List Satellite := []
  satSummary : SatSummary := {}

/-! ## The messages -/

/-- One satellite of NAV-SAT. -/
structure NavSatBlock where
  gnssId : ℕ
  svId : ℕ
  cno : ℕ
  elev : ℤ
  azim : ℤ
  prRes : ℚ
  qualityInd : ℕ
  svUsed : ℕ
  health : ℕ
  diffCorr : ℕ
  smoothed : ℕ
  orbitSource : ℕ
  ephAvail : ℕ
  almAvail : ℕ

/-- One signal of NAV-SIG. -/
structure NavSigBlock where
  gnssId : ℕ
  svId : ℕ
  sigId : ℕ
  freqId : ℕ
  cno : ℕ
  prRes : ℚ
  qualityInd : ℕ
  corrSource : ℕ
  ionoModel : ℕ
  health : ℕ
  prUsed : ℕ
  crUsed : ℕ
  doUsed : ℕ

inductive SatMessage
  | navSat (itow : ℕ) (blocks : List NavSatBlock)
  | navSig (itow : ℕ) (blocks : List NavSigBlock)

def SatMessage.itow : SatMessage → ℕ
  | .navSat itow _ | .navSig itow _ => itow

/-- The satellites a message reports. -/
def SatMessage.keys : SatMessage → List (ℕ ×ₗ ℕ)
  | .navSat _ blocks => blocks.map fun b => toLex (b.gnssId, b.svId)
  | .navSig _ blocks => blocks.map fun b => toLex (b.gnssId, b.svId)

/-! ## The handlers -/

/-- The record that `_sat_for` adds. -/
def newSatellite (gnssId svId : ℕ) : Satellite where
  gnssId := gnssId
  gnss := (gnssNames.lookup gnssId).getD ("gnss" ++ toString gnssId)
  svId := svId

/-- What `_nav_sat` writes to the record of a satellite. -/
def NavSatBlock.write (b : NavSatBlock) (sat : Satellite) : Satellite :=
  { sat with
    cno := b.cno
    elev := if -90 ≤ b.elev ∧ b.elev ≤ 90 then some b.elev else none
    azim := if 0 ≤ b.azim ∧ b.azim ≤ 360 then some b.azim else none
    prResM := b.prRes
    qualityInd := b.qualityInd
    used := b.svUsed ≠ 0
    health := b.health
    diffCorr := b.diffCorr ≠ 0
    smoothed := b.smoothed ≠ 0
    orbitSource := b.orbitSource
    ephAvail := b.ephAvail ≠ 0
    almAvail := b.almAvail ≠ 0 }

/-- The signal that `_nav_sig` makes. -/
def NavSigBlock.signal (b : NavSigBlock) : Signal where
  sigId := b.sigId
  name := signalName b.gnssId b.sigId
  freqId := b.freqId
  cno := b.cno
  prResM := b.prRes
  qualityInd := b.qualityInd
  corrSource := b.corrSource
  ionoModel := b.ionoModel
  health := b.health
  prUsed := b.prUsed ≠ 0
  crUsed := b.crUsed ≠ 0
  doUsed := b.doUsed ≠ 0

/-- What `_nav_sig` writes to it. -/
def NavSigBlock.write (b : NavSigBlock) (sat : Satellite) : Satellite :=
  { sat with
    signals := Keyed.sortBy Signal.sigId
      (sat.signals.filter (fun s => s.sigId ≠ b.sigId) ++ [b.signal]) }

/-- `_sat_for`, and what is written to the record. -/
def SatEpoch.update (epoch : SatEpoch) (gnssId svId : ℕ) (write : Satellite → Satellite)
    (hkey : ∀ sat, (write sat).key = sat.key) : SatEpoch where
  sats := Keyed.update Satellite.key (newSatellite gnssId svId) write epoch.sats
  nodup := Keyed.nodup_update hkey epoch.nodup

/-- One more satellite in the counts of its constellation. -/
def GnssCount.bump (used : Bool) (c : GnssCount) : GnssCount :=
  { c with tracked := c.tracked + 1, used := c.used + used.toNat }

/-- `per`. -/
def perGnss (sats : List Satellite) : List GnssCount :=
  sats.foldl (fun per sat =>
    Keyed.update GnssCount.gnss { gnss := sat.gnss } (GnssCount.bump sat.used) per) []

namespace SatStore

/-- `_epoch_sats`. -/
def epochSats (s : SatStore) (itow : ℕ) : SatStore :=
  if some itow ≠ s.satItow then { s with satEpoch := .empty, satItow := some itow } else s

/-- `_finalize_sats`. -/
def finalizeSats (s : SatStore) : SatStore :=
  let sats := Keyed.sortBy Satellite.key s.satEpoch.sats
  { s with
    sats := sats
    satSummary := {
      tracked := sats.length
      used := (sats.map fun sat => sat.used.toNat).sum
      perGnss := perGnss sats } }

/-- `_nav_sat`. -/
def navSat (s : SatStore) (itow : ℕ) (blocks : List NavSatBlock) : SatStore :=
  let s := s.epochSats itow
  let epoch := blocks.foldl (fun epoch b =>
    epoch.update b.gnssId b.svId b.write fun _ => rfl) s.satEpoch
  { s with satEpoch := epoch }.finalizeSats

/-- `_nav_sig`. -/
def navSig (s : SatStore) (itow : ℕ) (blocks : List NavSigBlock) : SatStore :=
  let s := s.epochSats itow
  let epoch := blocks.foldl (fun epoch b =>
    epoch.update b.gnssId b.svId b.write fun _ => rfl) s.satEpoch
  { s with satEpoch := epoch }.finalizeSats

/-- `apply`, of one of the two messages. -/
def apply (s : SatStore) : SatMessage → SatStore
  | .navSat itow blocks => s.navSat itow blocks
  | .navSig itow blocks => s.navSig itow blocks

end SatStore

/-! ## The order of the two messages -/

/-- The updates of a message. -/
def SatMessage.updates : SatMessage → List (Satellite × (Satellite → Satellite))
  | .navSat _ blocks => blocks.map fun b => (newSatellite b.gnssId b.svId, b.write)
  | .navSig _ blocks => blocks.map fun b => (newSatellite b.gnssId b.svId, b.write)

/-- The records after updates. -/
def updated (us : List (Satellite × (Satellite → Satellite))) (sats : List Satellite) :
    List Satellite :=
  us.foldl (fun l u => Keyed.update Satellite.key u.1 u.2 l) sats

theorem foldl_update_sats {β : Type*} (gnssId svId : β → ℕ) (write : β → Satellite → Satellite)
    (hkey : ∀ b sat, (write b sat).key = sat.key) (blocks : List β) (epoch : SatEpoch) :
    (blocks.foldl (fun epoch b => epoch.update (gnssId b) (svId b) (write b) (hkey b)) epoch).sats =
      updated (blocks.map fun b => (newSatellite (gnssId b) (svId b), write b)) epoch.sats := by
  induction blocks generalizing epoch with
  | nil => rfl
  | cons b blocks ih => exact ih _

theorem SatMessage.key_updates (m : SatMessage) :
    ∀ u ∈ m.updates, ∀ sat, (u.2 sat).key = sat.key := by
  intro u hu sat
  cases m with
  | navSat itow blocks =>
    obtain ⟨b, -, rfl⟩ := List.mem_map.1 hu
    rfl
  | navSig itow blocks =>
    obtain ⟨b, -, rfl⟩ := List.mem_map.1 hu
    rfl

/-- A record is the same after a NAV-SAT and a NAV-SIG in either order. -/
theorem navSat_navSig_comm (itow : ℕ) (blocks : List NavSatBlock) (signals : List NavSigBlock) :
    Keyed.Commuting Satellite.key (SatMessage.navSat itow blocks).updates
      (SatMessage.navSig itow signals).updates := by
  rintro u hu v hv hkey
  obtain ⟨b, -, rfl⟩ := List.mem_map.1 hu
  obtain ⟨c, -, rfl⟩ := List.mem_map.1 hv
  obtain ⟨hgnss, hsv⟩ := Prod.mk.inj (toLex.injective hkey)
  exact ⟨by rw [show b.gnssId = c.gnssId from hgnss, show b.svId = c.svId from hsv], fun _ => rfl⟩

namespace SatStore

variable {s t : SatStore} {itow : ℕ}

theorem epochSats_of_eq (h : s.satItow = some itow) : s.epochSats itow = s := by
  rw [epochSats, if_neg (by simp [h])]

theorem satItow_epochSats (s : SatStore) (itow : ℕ) : (s.epochSats itow).satItow = some itow := by
  rw [epochSats]
  split
  next => rfl
  next h => exact (not_not.1 h).symm

/-- The list and the summary are those of the satellites of the epoch. -/
def Finalized (s : SatStore) : Prop :=
  s.sats = Keyed.sortBy Satellite.key s.satEpoch.sats ∧
    s.satSummary = {
      tracked := s.sats.length
      used := (s.sats.map fun sat => sat.used.toNat).sum
      perGnss := perGnss s.sats }

/-- What a message does. -/
theorem apply_spec (s : SatStore) (m : SatMessage) :
    (s.apply m).satItow = some m.itow ∧
      (s.apply m).satEpoch.sats = updated m.updates (s.epochSats m.itow).satEpoch.sats ∧
      (s.apply m).Finalized := by
  cases m with
  | navSat itow blocks =>
    exact ⟨satItow_epochSats s itow, foldl_update_sats _ _ _ _ _ _, rfl, rfl⟩
  | navSig itow blocks =>
    exact ⟨satItow_epochSats s itow, foldl_update_sats _ _ _ _ _ _, rfl, rfl⟩

/-- Stores with the same satellites show the same. -/
theorem Finalized.congr (hs : s.Finalized) (ht : t.Finalized)
    (h : s.satEpoch.sats.Perm t.satEpoch.sats) :
    s.sats = t.sats ∧ s.satSummary = t.satSummary := by
  have hsats : s.sats = t.sats := by
    rw [hs.1, ht.1]
    exact Keyed.sortBy_congr s.satEpoch.nodup h
  exact ⟨hsats, by rw [hs.2, ht.2, hsats]⟩

/-- Two messages of one iTOW that commute on each record. -/
theorem apply_comm (s : SatStore) {m n : SatMessage} (hitow : m.itow = n.itow)
    (h : Keyed.Commuting Satellite.key m.updates n.updates) :
    ((s.apply m).apply n).sats = ((s.apply n).apply m).sats ∧
      ((s.apply m).apply n).satSummary = ((s.apply n).apply m).satSummary := by
  obtain ⟨hm, hsatsm, -⟩ := s.apply_spec m
  obtain ⟨hn, hsatsn, -⟩ := s.apply_spec n
  obtain ⟨-, hsats, hfin⟩ := (s.apply m).apply_spec n
  obtain ⟨-, hsats', hfin'⟩ := (s.apply n).apply_spec m
  refine hfin.congr hfin' ?_
  rw [hsats, hsats', epochSats_of_eq (hm.trans (congrArg some hitow)),
    epochSats_of_eq (hn.trans (congrArg some hitow.symm)), hsatsm, hsatsn, hitow]
  exact Keyed.perm_of_commute m.key_updates n.key_updates h (s.epochSats n.itow).satEpoch.nodup

end SatStore

/-! ## Any messages -/

/-- A satellite is reported since the current iTOW began : by a message whose iTOW all the later
ones have. -/
def Reported (ms : List SatMessage) (k : ℕ ×ₗ ℕ) : Prop :=
  ∃ pre m post, ms = pre ++ m :: post ∧ (∀ n ∈ post, n.itow = m.itow) ∧ k ∈ m.keys

theorem not_reported_nil (k : ℕ ×ₗ ℕ) : ¬Reported [] k := by
  rintro ⟨pre, m, post, h, -⟩
  simp at h

theorem last_itow {pre post : List SatMessage} {m : SatMessage}
    (h : ∀ n ∈ post, n.itow = m.itow) :
    (pre ++ m :: post).getLast?.map SatMessage.itow = some m.itow := by
  have hall : ∀ n ∈ m :: post, n.itow = m.itow := List.forall_mem_cons.2 ⟨rfl, h⟩
  rw [List.getLast?_append_of_ne_nil _ (List.cons_ne_nil m post),
    List.getLast?_eq_some_getLast (List.cons_ne_nil m post), Option.map_some,
    hall _ (List.getLast_mem _)]

theorem reported_snoc {ms : List SatMessage} {m : SatMessage} {k : ℕ ×ₗ ℕ} :
    Reported (ms ++ [m]) k ↔
      k ∈ m.keys ∨ ms.getLast?.map SatMessage.itow = some m.itow ∧ Reported ms k := by
  constructor
  · rintro ⟨pre, n, post, heq, hpost, hk⟩
    rcases List.eq_nil_or_concat post with rfl | ⟨post, y, rfl⟩
    · obtain ⟨-, htail⟩ := List.append_inj' heq rfl
      exact .inl ((List.cons.inj htail).1 ▸ hk)
    · have heq : ms ++ [m] = (pre ++ n :: post) ++ [y] := by simpa using heq
      obtain ⟨rfl, htail⟩ := List.append_inj' heq rfl
      obtain rfl := (List.cons.inj htail).1
      have hpost' : ∀ n' ∈ post, n'.itow = n.itow := fun n' hn' => hpost n' (by simp [hn'])
      refine .inr ⟨?_, pre, n, post, rfl, hpost', hk⟩
      rw [last_itow hpost', hpost m (by simp)]
  · rintro (hk | ⟨hlast, pre, n, post, rfl, hpost, hk⟩)
    · exact ⟨ms, m, [], rfl, by simp, hk⟩
    · refine ⟨pre, n, post ++ [m], by simp, fun n' hn' => ?_, hk⟩
      rcases List.mem_append.1 hn' with hn' | hn'
      · exact hpost n' hn'
      · rw [last_itow hpost, Option.some.injEq] at hlast
        rw [List.mem_singleton.1 hn', hlast]

/-- The signals of a satellite are sorted by their number, and none is there twice. -/
def SignalsSorted (sat : Satellite) : Prop := (sat.signals.map Signal.sigId).Pairwise (· < ·)

theorem mem_updated {us : List (Satellite × (Satellite → Satellite))}
    (hkey : ∀ u ∈ us, ∀ sat, (u.2 sat).key = sat.key) (sats : List Satellite) (k : ℕ ×ₗ ℕ) :
    k ∈ (updated us sats).map Satellite.key ↔
      k ∈ us.map (fun u => u.1.key) ∨ k ∈ sats.map Satellite.key := by
  induction us generalizing sats with
  | nil => simp [updated]
  | cons u us ih =>
    obtain ⟨hu, hus⟩ := List.forall_mem_cons.1 hkey
    have hstep : updated (u :: us) sats =
        updated us (Keyed.update Satellite.key u.1 u.2 sats) := rfl
    rw [hstep, ih hus, Keyed.mem_keys_update hu, List.map_cons, List.mem_cons]
    tauto

theorem forall_updated {P : Satellite → Prop} {us : List (Satellite × (Satellite → Satellite))}
    (hus : ∀ u ∈ us, P u.1 ∧ ∀ sat, P sat → P (u.2 sat)) {sats : List Satellite}
    (h : ∀ sat ∈ sats, P sat) : ∀ sat ∈ updated us sats, P sat := by
  induction us generalizing sats with
  | nil => exact h
  | cons u us ih =>
    obtain ⟨⟨hnew, hkeep⟩, hus⟩ := List.forall_mem_cons.1 hus
    exact ih hus (Keyed.forall_update hnew hkeep h)

theorem SatMessage.keys_updates (m : SatMessage) : m.updates.map (fun u => u.1.key) = m.keys := by
  cases m <;> simp [SatMessage.updates, SatMessage.keys, newSatellite, Satellite.key]

theorem NavSigBlock.signalsSorted_write (b : NavSigBlock) {sat : Satellite}
    (h : SignalsSorted sat) : SignalsSorted (b.write sat) := by
  refine Keyed.sortBy_strict ?_
  have hrest := h.imp (fun hlt => ne_of_lt hlt)
  rw [List.map_append, List.map_singleton]
  refine List.nodup_append.2 ⟨hrest.sublist (List.filter_sublist.map _), by simp, ?_⟩
  rintro i hi j hj rfl
  obtain ⟨sig, hsig, rfl⟩ := List.mem_map.1 hi
  have hne := (List.mem_filter.1 hsig).2
  exact absurd (List.mem_singleton.1 hj) (by simpa [NavSigBlock.signal] using hne)

theorem SatMessage.signalsSorted_updates (m : SatMessage) :
    ∀ u ∈ m.updates, SignalsSorted u.1 ∧ ∀ sat, SignalsSorted sat → SignalsSorted (u.2 sat) := by
  intro u hu
  cases m with
  | navSat itow blocks =>
    obtain ⟨b, -, rfl⟩ := List.mem_map.1 hu
    exact ⟨.nil, fun sat h => h⟩
  | navSig itow blocks =>
    obtain ⟨b, -, rfl⟩ := List.mem_map.1 hu
    exact ⟨.nil, fun sat h => b.signalsSorted_write h⟩

namespace SatStore

variable {s : SatStore} {ms : List SatMessage}

/-- What holds after any messages. -/
structure Inv (ms : List SatMessage) (s : SatStore) : Prop where
  itow : s.satItow = ms.getLast?.map SatMessage.itow
  finalized : s.Finalized
  reported : ∀ k, k ∈ s.satEpoch.sats.map Satellite.key ↔ Reported ms k
  signals : ∀ sat ∈ s.satEpoch.sats, SignalsSorted sat

theorem inv_nil : Inv [] {} where
  itow := rfl
  finalized := ⟨by simp [Keyed.sortBy, SatEpoch.empty], rfl⟩
  reported k := iff_of_false (by simp [SatEpoch.empty]) (not_reported_nil k)
  signals sat hsat := absurd hsat List.not_mem_nil

theorem Inv.apply (h : Inv ms s) (m : SatMessage) : Inv (ms ++ [m]) (s.apply m) := by
  obtain ⟨hitow, hsats, hfin⟩ := s.apply_spec m
  obtain ⟨hkeys, hsignals⟩ : (∀ k, k ∈ (s.epochSats m.itow).satEpoch.sats.map Satellite.key ↔
      ms.getLast?.map SatMessage.itow = some m.itow ∧ Reported ms k) ∧
      ∀ sat ∈ (s.epochSats m.itow).satEpoch.sats, SignalsSorted sat := by
    by_cases hsame : s.satItow = some m.itow
    · rw [epochSats_of_eq hsame]
      exact ⟨fun k => by rw [h.reported, ← h.itow, and_iff_right hsame], h.signals⟩
    · rw [epochSats, if_pos (Ne.symm hsame), ← h.itow]
      exact ⟨fun k => iff_of_false (by simp [SatEpoch.empty]) fun h => hsame h.1,
        fun sat hsat => absurd hsat List.not_mem_nil⟩
  exact {
    itow := by simp [hitow]
    finalized := hfin
    reported := fun k => by
      rw [hsats, mem_updated m.key_updates, m.keys_updates, hkeys, reported_snoc]
    signals := by
      rw [hsats]
      exact forall_updated m.signalsSorted_updates hsignals }

theorem inv_foldl (ms : List SatMessage) : Inv ms (ms.foldl apply {}) := by
  induction ms using List.reverseRecOn with
  | nil => exact inv_nil
  | append_singleton ms m ih =>
    rw [List.foldl_append]
    exact ih.apply m

end SatStore

/-- The counts of the constellations add up to those of the list. -/
theorem sum_perGnss (sats : List Satellite) :
    ((perGnss sats).map GnssCount.tracked).sum = sats.length ∧
      ((perGnss sats).map GnssCount.used).sum = (sats.map fun sat => sat.used.toNat).sum := by
  induction sats using List.reverseRecOn with
  | nil => exact ⟨rfl, rfl⟩
  | append_singleton sats sat ih =>
    have hstep : perGnss (sats ++ [sat]) =
        Keyed.update GnssCount.gnss { gnss := sat.gnss } (GnssCount.bump sat.used)
          (perGnss sats) := by
      simp [perGnss]
    have htracked : ((perGnss (sats ++ [sat])).map GnssCount.tracked).sum =
        ((perGnss sats).map GnssCount.tracked).sum + 1 := by
      rw [hstep]
      exact Keyed.sum_update GnssCount.tracked 1 rfl (fun _ => rfl) _
    have hused : ((perGnss (sats ++ [sat])).map GnssCount.used).sum =
        ((perGnss sats).map GnssCount.used).sum + sat.used.toNat := by
      rw [hstep]
      exact Keyed.sum_update GnssCount.used sat.used.toNat rfl (fun _ => rfl) _
    rw [htracked, hused, ih.1, ih.2]
    simp

theorem sum_used (sats : List Satellite) :
    (sats.map fun sat => sat.used.toNat).sum = sats.countP (·.used) := by
  induction sats with
  | nil => rfl
  | cons sat sats ih =>
    rw [List.map_cons, List.sum_cons, ih, List.countP_cons]
    cases sat.used
    · simp
    · simp [Nat.add_comm]

/-- What the list and the summary are after messages. -/
structure Assembled (ms : List SatMessage) (s : SatStore) : Prop where
  sorted : (s.sats.map Satellite.key).Pairwise (· < ·)
  reported : ∀ k, k ∈ s.sats.map Satellite.key ↔ Reported ms k
  signals : ∀ sat ∈ s.sats, SignalsSorted sat
  tracked : s.satSummary.tracked = s.sats.length
  used : s.satSummary.used = s.sats.countP (·.used)
  trackedSum : s.satSummary.tracked = (s.satSummary.perGnss.map GnssCount.tracked).sum
  usedSum : s.satSummary.used = (s.satSummary.perGnss.map GnssCount.used).sum

theorem SatStore.Inv.assembled {ms : List SatMessage} {s : SatStore} (h : s.Inv ms) :
    Assembled ms s := by
  obtain ⟨hsats, hsummary⟩ := h.finalized
  obtain ⟨htracked, hused⟩ := sum_perGnss s.sats
  have hperm : s.sats.Perm s.satEpoch.sats := hsats ▸ Keyed.sortBy_perm _
  exact {
    sorted := hsats ▸ Keyed.sortBy_strict s.satEpoch.nodup
    reported := fun k => by rw [← h.reported, (hperm.map _).mem_iff]
    signals := fun sat hsat => h.signals sat (hperm.mem_iff.1 hsat)
    tracked := by rw [hsummary]
    used := by rw [hsummary, sum_used]
    trackedSum := by rw [hsummary, htracked]
    usedSum := by rw [hsummary, hused] }

/-- A NAV-SAT and a NAV-SIG of one iTOW leave the same list and summary in either order, in any
state, and any messages leave those of the satellites reported since their iTOW began. -/
theorem satellites_assembled :
    (∀ (s : SatStore) (itow : ℕ) (blocks : List NavSatBlock) (signals : List NavSigBlock),
      ((s.navSat itow blocks).navSig itow signals).sats =
          ((s.navSig itow signals).navSat itow blocks).sats ∧
        ((s.navSat itow blocks).navSig itow signals).satSummary =
          ((s.navSig itow signals).navSat itow blocks).satSummary) ∧
      ∀ ms : List SatMessage, Assembled ms (ms.foldl SatStore.apply {}) :=
  ⟨fun s itow blocks signals => s.apply_comm (m := .navSat itow blocks) (n := .navSig itow signals)
      rfl (navSat_navSig_comm itow blocks signals),
    fun ms => (SatStore.inv_foldl ms).assembled⟩

end Mtrtk
