import Mathlib.Algebra.Order.Group.Abs
import Mtrtk.SbgClock

/-!
# Anchors a wrap away

A device time stamp comes round every 71.6 minutes, and the adapter compares it with anchors that
nothing ages out. What looks near an anchor is near it up to a number of wraps, and the number is
none exactly where the code does what it promises (`Dating.fresh_iff`).

`SbgStateAdapter.apply_datings` says of each log what is compared and that the near ones are dated,
so a run is sound if and only if nothing in it is compared with an anchor that is wraps away
(`SbgStateAdapter.dates_fresh_iff`). A unit that keeps sending and loses UTC for 71.6 minutes
dates an epoch from an anchor that old (`SbgStateAdapter.dates_fresh_fails`).
-/

namespace Mtrtk

/-! ## The distance that the code sees -/

/-- The bound for what is dated. -/
def Dating.bound : Dating → ℤ
  | .epoch _ _ => anchorMaxUs
  | .mark _ _ => anchorMaxUs
  | .heldMark _ _ => heldMaxUs

/-- The true distance from the anchor. -/
def Dating.age : Dating → ℤ
  | .epoch stamp anchor => stamp.clock - anchor.clock
  | .mark stamp anchor => stamp.clock - anchor.clock
  | .heldMark stamp anchor => stamp.clock - anchor.clock

/-- The distance from the anchor that the code sees. -/
def Dating.seen : Dating → ℤ
  | .epoch stamp anchor => stamp.since anchor
  | .mark stamp anchor => stamp.since anchor
  | .heldMark stamp anchor => stamp.since anchor

/-- The anchor is no older, and no younger, than it may be. -/
def Dating.Fresh (d : Dating) : Prop := |d.age| ≤ d.bound

/-- The anchor looks near. -/
def Dating.near (d : Dating) : Bool := |d.seen| ≤ d.bound

/-- The anchor looks near, but is some wraps of the stamp away. -/
def Dating.Wrapped (d : Dating) : Prop := ∃ k : ℤ, k ≠ 0 ∧ |d.age - k * u32| ≤ d.bound

theorem Stamp.since_eq (s t : Stamp) :
    ∃ k : ℤ, s.since t = s.clock - t.clock - k * u32 ∧ -(u32 / 2) ≤ s.since t ∧
      s.since t < u32 / 2 := by
  refine ⟨s.clock / u32 - t.clock / u32 + (s.us - t.us + u32 / 2) / u32, ?_, ?_, ?_⟩ <;>
  · simp only [Stamp.since, signedUs, Stamp.us, u32]
    omega

/-- Within half a wrap the distance that is seen is the one number that is right up to wraps. -/
theorem Stamp.since_of_near {s t : Stamp} {k bound : ℤ} (hbound : 2 * bound < u32)
    (h : |s.clock - t.clock - k * u32| ≤ bound) : s.since t = s.clock - t.clock - k * u32 := by
  obtain ⟨j, hj, hlo, hhi⟩ := s.since_eq t
  have hu : u32 = 4294967296 := rfl
  rw [abs_le] at h
  rw [hu] at hj hlo hhi hbound h ⊢
  omega

theorem Dating.bound_lt (d : Dating) : 2 * d.bound < u32 := by
  have hanchor : 2 * anchorMaxUs < u32 := by decide
  have hheld : 2 * heldMaxUs < u32 := by decide
  cases d with
  | epoch stamp anchor => exact hanchor
  | mark stamp anchor => exact hanchor
  | heldMark stamp anchor => exact hheld

theorem Dating.seen_of_near {d : Dating} {k : ℤ} (h : |d.age - k * u32| ≤ d.bound) :
    d.seen = d.age - k * u32 := by
  cases d <;> exact Stamp.since_of_near (bound_lt _) h

theorem Dating.exists_seen (d : Dating) : ∃ k : ℤ, d.seen = d.age - k * u32 := by
  cases d with
  | epoch stamp anchor => exact (stamp.since_eq anchor).imp fun k hk => hk.1
  | mark stamp anchor => exact (stamp.since_eq anchor).imp fun k hk => hk.1
  | heldMark stamp anchor => exact (stamp.since_eq anchor).imp fun k hk => hk.1

/-- What looks near is fresh exactly when it is not some wraps away. -/
theorem Dating.fresh_iff (d : Dating) : (d.near = true → d.Fresh) ↔ ¬d.Wrapped := by
  have hu : u32 = 4294967296 := rfl
  rw [near, decide_eq_true_iff]
  constructor
  · rintro hfresh ⟨k, hk, hnear⟩
    have hage : |d.age| ≤ d.bound := hfresh (by rwa [Dating.seen_of_near hnear])
    have hbound := d.bound_lt
    rw [abs_le] at hage hnear
    rw [hu] at hbound hnear
    omega
  · intro hwrap hseen
    obtain ⟨k, hk⟩ := d.exists_seen
    by_cases hzero : k = 0
    · rw [Fresh]
      rwa [hk, hzero, zero_mul, sub_zero] at hseen
    · exact absurd ⟨k, hzero, hk ▸ hseen⟩ hwrap

namespace SbgStateAdapter

/-! ## What a log is compared with -/

/-- The anchors that are there for a log : a jump of its stamp drops them. -/
def utcAnchorFor (a : SbgStateAdapter) (stamp : Stamp) : Option Anchor :=
  if a.jumps stamp then none else a.utcAnchor

def clockAnchorFor (a : SbgStateAdapter) (stamp : Stamp) : Option Anchor :=
  if a.jumps stamp then none else a.clockAnchor

def timelineFor (a : SbgStateAdapter) (stamp : Stamp) : ℕ :=
  if a.jumps stamp then a.timeline + 1 else a.timeline

/-- Every stamp that a log has the code compare with an anchor, to date it. -/
def compared (a : SbgStateAdapter) : SbgLog → List Dating
  | .ekfNav stamp => (a.clockAnchorFor stamp).toList.map fun anchor => .epoch stamp anchor.stamp
  | .utcTime stamp m =>
    if m.validUtc.isSome then
      (a.heldMarks.filter fun h => h.timeline = a.timelineFor stamp).map fun h =>
        .heldMark h.stamp stamp
    else if m.runningUtc.isSome then [.epoch stamp stamp]
    else (a.clockAnchorFor stamp).toList.map fun anchor => .epoch stamp anchor.stamp
  | .event stamp _ offsets =>
    ((0 :: offsets).map stamp.plus).flatMap fun edge =>
      (a.utcAnchorFor stamp).toList.map fun anchor => .mark edge anchor.stamp
  | .other _ => []

/-! ## One log -/

variable {a : SbgStateAdapter} {stamp : Stamp}

theorem noteStamp_same (a : SbgStateAdapter) (stamp : Stamp) :
    (a.noteStamp stamp).utcAnchor = a.utcAnchorFor stamp ∧
      (a.noteStamp stamp).clockAnchor = a.clockAnchorFor stamp ∧
      (a.noteStamp stamp).timeline = a.timelineFor stamp ∧
      (a.noteStamp stamp).heldMarks = a.heldMarks := by
  rw [noteStamp, utcAnchorFor, clockAnchorFor, timelineFor]
  split
  · exact ⟨rfl, rfl, rfl, rfl⟩
  · split <;> exact ⟨rfl, rfl, rfl, rfl⟩

/-- An epoch is dated from the anchor that looks near, or has no time. -/
def Carried (stamp : Stamp) (r : SbgStateAdapter × List Dating) : Prop :=
  (r.2 = [] ∧ r.1.time.utc = none ∧ r.1.time.itowMs = none) ∨
    ∃ anchor : Anchor, r.2 = [.epoch stamp anchor.stamp] ∧
      r.1.time.utc = some (anchor.utc + stamp.since anchor.stamp)

/-- The datings that look near, from an anchor that may be there. -/
theorem filter_near (anchor : Option Anchor) (f : Anchor → Dating) :
    (anchor.toList.map f).filter Dating.near =
      ((anchor.filter fun anchor => (f anchor).near).map f).toList := by
  cases anchor with
  | none => rfl
  | some anchor =>
    cases h : (f anchor).near <;> simp [Option.filter, h]

theorem carryTime_spec (a : SbgStateAdapter) (stamp : Stamp) :
    Carried stamp (a.carryTime stamp) ∧
      (a.carryTime stamp).2 =
        (a.clockAnchor.toList.map fun anchor => .epoch stamp anchor.stamp).filter Dating.near := by
  rw [filter_near, carryTime]
  change _ ∧ _ = ((a.clockAnchor.filter fun anchor =>
    |stamp.since anchor.stamp| ≤ anchorMaxUs).map fun anchor =>
      Dating.epoch stamp anchor.stamp).toList
  split
  · next anchor hsome =>
    rw [hsome]
    exact ⟨.inr ⟨anchor, rfl, rfl⟩, rfl⟩
  · next hnone =>
    rw [hnone]
    split
    · next hclear => exact ⟨.inl ⟨rfl, hclear⟩, rfl⟩
    · exact ⟨.inl ⟨rfl, rfl, rfl⟩, rfl⟩

theorem nearAnchor_eq {anchor : Anchor} (h : a.utcAnchor = some anchor) (stamp : Stamp)
    (bound : ℤ) :
    a.nearAnchor stamp bound =
      if |stamp.since anchor.stamp| ≤ bound then some anchor else none := by
  simp [nearAnchor, h, Option.filter]

theorem release_spec (held : List HeldMark) : ∀ (a : SbgStateAdapter) (anchor : Anchor),
    a.utcAnchor = some anchor → (a.release held).1.heldMarks = a.heldMarks ∧
      (a.release held).2 =
        ((held.filter fun h => h.timeline = a.timeline).map fun h =>
          .heldMark h.stamp anchor.stamp).filter Dating.near := by
  induction held with
  | nil => exact fun _ _ _ => ⟨rfl, rfl⟩
  | cons h held ih =>
    intro a anchor hanchor
    by_cases htime : h.timeline = a.timeline
    · by_cases hnear : |h.stamp.since anchor.stamp| ≤ heldMaxUs
      · obtain ⟨hheld, hrest⟩ := ih
          (a.pushTimeMark (a.mark anchor h.channel h.count h.stamp true)) anchor hanchor
        have hd : (Dating.heldMark h.stamp anchor.stamp).near = true := decide_eq_true hnear
        simp only [release, nearAnchor_eq hanchor, if_pos hnear, Option.filter, htime, decide_true,
          if_true]
        refine ⟨hheld, ?_⟩
        rw [hrest, List.filter_cons_of_pos (by simp [htime]), List.map_cons,
          List.filter_cons_of_pos hd]
        rfl
      · have hd : ¬(Dating.heldMark h.stamp anchor.stamp).near = true :=
          fun hd => hnear (of_decide_eq_true hd)
        simp only [release, nearAnchor_eq hanchor, if_neg hnear, Option.filter]
        rw [List.filter_cons_of_pos (by simp [htime]), List.map_cons, List.filter_cons_of_neg hd]
        exact ih a anchor hanchor
    · have hnone : (a.nearAnchor h.stamp heldMaxUs).filter (fun _ => h.timeline = a.timeline) =
          none := by
        simp [htime]
      simp only [release, hnone]
      rw [List.filter_cons_of_neg (by simp [htime])]
      exact ih a anchor hanchor

theorem edge_spec (a : SbgStateAdapter) (channel : ℕ) (stamp : Stamp) :
    (a.edge channel stamp).1.utcAnchor = a.utcAnchor ∧
      (a.edge channel stamp).2 =
        (a.utcAnchor.toList.map fun anchor => .mark stamp anchor.stamp).filter Dating.near := by
  rw [filter_near, edge]
  change _ ∧ _ = ((a.nearAnchor stamp anchorMaxUs).map fun anchor =>
    Dating.mark stamp anchor.stamp).toList
  have hsame : nearAnchor { a with
      eventCounts := Function.update a.eventCounts channel (a.eventCounts channel + 1) } stamp
        anchorMaxUs = a.nearAnchor stamp anchorMaxUs := rfl
  dsimp only
  rw [hsame]
  split
  · next anchor hsome => exact ⟨rfl, by rw [hsome]; rfl⟩
  · next hnone => exact ⟨rfl, by rw [hnone]; rfl⟩

theorem edges_spec (channel : ℕ) (stamps : List Stamp) (a : SbgStateAdapter) :
    (a.edges channel stamps).2 =
      (stamps.flatMap fun stamp =>
        a.utcAnchor.toList.map fun anchor => .mark stamp anchor.stamp).filter Dating.near := by
  induction stamps generalizing a with
  | nil => rfl
  | cons stamp stamps ih =>
    obtain ⟨hanchor, hfirst⟩ := a.edge_spec channel stamp
    rw [edges, List.flatMap_cons, List.filter_append, ← hfirst]
    dsimp only
    rw [ih, hanchor]

/-- A UTC_TIME log that is valid dates the held marks, and lets go of all of them. -/
theorem utc_some {m : SbgUtcTime} {utc : ℤ} (h : m.validUtc = some utc) (a : SbgStateAdapter)
    (stamp : Stamp) : (a.utc stamp m).1.heldMarks = [] ∧
      (a.utc stamp m).2 = ((a.heldMarks.filter fun h => h.timeline = a.timeline).map fun h =>
        .heldMark h.stamp stamp).filter Dating.near := by
  simp only [SbgStateAdapter.utc, h]
  exact release_spec a.heldMarks _ ⟨stamp, utc⟩ rfl

/-- One that is not carries the time. -/
theorem utc_none {m : SbgUtcTime} (h : m.validUtc = none) (a : SbgStateAdapter) (stamp : Stamp) :
    Carried stamp (a.utc stamp m) ∧ (a.utc stamp m).2 =
      (if m.runningUtc.isSome then [Dating.epoch stamp stamp]
        else a.clockAnchor.toList.map fun anchor => .epoch stamp anchor.stamp).filter
          Dating.near := by
  simp only [SbgStateAdapter.utc, h]
  refine ⟨(carryTime_spec _ stamp).1, (carryTime_spec _ stamp).2.trans ?_⟩
  cases m.runningUtc <;> rfl

/-- What is dated is what is compared and looks near. -/
theorem apply_datings (a : SbgStateAdapter) (log : SbgLog) :
    (a.apply log).2 = (a.compared log).filter Dating.near := by
  obtain ⟨hutc, hclock, htime, hheld⟩ := a.noteStamp_same log.stamp
  cases log with
  | ekfNav stamp =>
    have h := ((a.noteStamp stamp).carryTime_spec stamp).2
    rw [show (a.noteStamp stamp).clockAnchor = _ from hclock] at h
    exact h
  | utcTime stamp m =>
    cases hm : m.validUtc with
    | none =>
      have h := (utc_none hm (a.noteStamp stamp) stamp).2
      rw [show (a.noteStamp stamp).clockAnchor = _ from hclock] at h
      refine h.trans ?_
      simp only [compared, hm]
      rfl
    | some utc =>
      have h := (utc_some hm (a.noteStamp stamp) stamp).2
      rw [show (a.noteStamp stamp).timeline = _ from htime,
        show (a.noteStamp stamp).heldMarks = _ from hheld] at h
      refine h.trans ?_
      simp only [compared, hm]
      rfl
  | event stamp channel offsets =>
    have h := edges_spec channel ((0 :: offsets).map stamp.plus) (a.noteStamp stamp)
    rw [show (a.noteStamp stamp).utcAnchor = _ from hutc] at h
    exact h
  | other stamp => rfl

/-- What a log does not date it clears or lets go of : the time of an epoch, and the marks held
for a valid UTC. -/
def Settles (a : SbgStateAdapter) : SbgLog → Prop
  | .ekfNav stamp => Carried stamp (a.apply (.ekfNav stamp))
  | .utcTime stamp m =>
    if m.validUtc.isSome then (a.apply (.utcTime stamp m)).1.heldMarks = []
    else Carried stamp (a.apply (.utcTime stamp m))
  | .event _ _ _ => True
  | .other _ => True

theorem settles (a : SbgStateAdapter) (log : SbgLog) : a.Settles log := by
  cases log with
  | ekfNav stamp => exact ((a.noteStamp stamp).carryTime_spec stamp).1
  | utcTime stamp m =>
    cases hm : m.validUtc with
    | none =>
      simp only [Settles, hm]
      exact (utc_none hm (a.noteStamp stamp) stamp).1
    | some utc =>
      simp only [Settles, hm]
      exact (utc_some hm (a.noteStamp stamp) stamp).1
  | event stamp channel offsets => trivial
  | other stamp => trivial

/-! ## Every run -/

/-- Nothing is dated from a stale anchor. -/
def Sound : SbgStateAdapter → List SbgLog → Prop
  | _, [] => True
  | a, log :: logs =>
    (∀ d ∈ (a.apply log).2, d.Fresh) ∧ a.Settles log ∧ (a.apply log).1.Sound logs

/-- Nothing is compared with an anchor that is wraps of the stamp away. -/
def Apart : SbgStateAdapter → List SbgLog → Prop
  | _, [] => True
  | a, log :: logs => (∀ d ∈ a.compared log, ¬d.Wrapped) ∧ (a.apply log).1.Apart logs

theorem sound_iff_apart (logs : List SbgLog) (a : SbgStateAdapter) :
    a.Sound logs ↔ a.Apart logs := by
  induction logs generalizing a with
  | nil => exact Iff.rfl
  | cons log logs ih =>
    have hdate : (∀ d ∈ (a.apply log).2, d.Fresh) ↔ ∀ d ∈ a.compared log, ¬d.Wrapped := by
      rw [apply_datings]
      simp only [List.mem_filter, and_imp, ← Dating.fresh_iff]
    rw [Sound, Apart, hdate, ih]
    exact and_congr_right fun _ => and_iff_right (a.settles log)

/-- The adapter dates epochs and marks from fresh anchors alone exactly as long as no stamp comes
within the bound of a whole number of wraps, other than none, of the anchor it is compared with. -/
theorem dates_fresh_iff (logs : List SbgLog) :
    Sound {} logs ↔ Apart {} logs := sound_iff_apart logs {}

/-! ## A wrap without UTC -/

/-- The device clock advances by less than the jump from one log to the next. -/
def SteadyFrom : ℤ → List SbgLog → Prop
  | _, [] => True
  | clock, log :: logs =>
    clock ≤ log.stamp.clock ∧ log.stamp.clock < clock + timelineJumpUs ∧
      SteadyFrom log.stamp.clock logs

def Steady : List SbgLog → Prop
  | [] => True
  | log :: logs => SteadyFrom log.stamp.clock logs

/-- Logs without UTC, one every 4.9 s, and then an epoch one wrap after the anchor. -/
def silence : ℕ → ℕ → List SbgLog
  | _, 0 => [.ekfNav ⟨u32⟩]
  | i, n + 1 => .other ⟨4900000 * (i + 1)⟩ :: silence (i + 1) n

/-- A UTC_TIME log, and no other for a wrap. -/
def silentRun : List SbgLog := .utcTime ⟨0⟩ ⟨134, 0, some 0, false⟩ :: silence 0 876

theorem steadyFrom_silence : ∀ n i : ℕ, i + n = 876 → SteadyFrom (4900000 * i) (silence i n)
  | 0, i, h => by
    obtain rfl : i = 876 := by omega
    exact ⟨by decide, by decide, trivial⟩
  | n + 1, i, h => by
    refine ⟨?_, ?_, steadyFrom_silence n (i + 1) (by omega)⟩
    · simp only [SbgLog.stamp]
      omega
    · simp only [SbgLog.stamp, timelineJumpUs]
      omega

/-- A log that follows the last one closely is on its timeline. -/
theorem jumps_of_close {x y : ℤ} (h : a.lastStamp = some ⟨x⟩) (hle : x ≤ y)
    (hlt : y < x + timelineJumpUs) :
    a.jumps ⟨y⟩ = false ∧ Stamp.since ⟨y⟩ ⟨x⟩ = y - x := by
  have hjump : timelineJumpUs = 5000000 := rfl
  have hnear : |y - x - 0 * u32| ≤ timelineJumpUs := by
    rw [zero_mul, sub_zero, abs_of_nonneg (by omega)]
    omega
  have hsince : Stamp.since ⟨y⟩ ⟨x⟩ = y - x := by
    rw [Stamp.since_of_near (by decide) hnear, zero_mul, sub_zero]
  refine ⟨?_, hsince⟩
  rw [jumps, h, Option.any_some, hsince, abs_of_nonneg (by omega), decide_eq_false_iff_not]
  omega

/-- The epoch is dated from the anchor that is a wrap old. -/
theorem not_sound_silence : ∀ (n i : ℕ) (a : SbgStateAdapter), i + n = 876 →
    a.lastStamp = some ⟨4900000 * i⟩ → a.clockAnchor = some ⟨⟨0⟩, 0⟩ → ¬a.Sound (silence i n)
  | 0, i, a, h, hlast, hanchor => by
    obtain rfl : i = 876 := by omega
    have hclose : u32 < 4900000 * ((876 : ℕ) : ℤ) + timelineJumpUs := by decide
    obtain ⟨hjump, -⟩ := jumps_of_close hlast (by decide) hclose
    intro hsound
    have hmem : Dating.epoch ⟨u32⟩ ⟨0⟩ ∈ a.compared (.ekfNav ⟨u32⟩) := by
      simp [compared, clockAnchorFor, hjump, hanchor]
    exact ((sound_iff_apart _ a).1 hsound).1 _ hmem ⟨1, by decide, by decide⟩
  | n + 1, i, a, h, hlast, hanchor => by
    have hclose : 4900000 * ((i : ℤ) + 1) < 4900000 * i + timelineJumpUs := by
      rw [timelineJumpUs]
      omega
    obtain ⟨hjump, hsince⟩ := jumps_of_close hlast (by omega) hclose
    have hnote : a.noteStamp ⟨4900000 * (i + 1)⟩ =
        { a with lastStamp := some ⟨4900000 * (i + 1)⟩ } := by
      rw [noteStamp, hjump, if_neg Bool.false_ne_true, hlast, Option.all_some, hsince]
      exact if_pos (decide_eq_true (by omega))
    rintro ⟨-, -, hrest⟩
    have hnext : (a.noteStamp ⟨4900000 * (i + 1)⟩).Sound (silence (i + 1) n) := hrest
    rw [hnote] at hnext
    exact not_sound_silence n (i + 1) { a with lastStamp := some ⟨4900000 * (i + 1)⟩ } (by omega)
      rfl hanchor hnext

/-- After 71.6 minutes without UTC an epoch is dated 71.6 minutes early. -/
theorem dates_fresh_fails : ¬∀ logs : List SbgLog, Steady logs → Sound {} logs := by
  intro h
  have hsteady : Steady silentRun := steadyFrom_silence 876 0 rfl
  exact not_sound_silence 876 0 _ rfl rfl rfl (h silentRun hsteady).2.2

end SbgStateAdapter

end Mtrtk
