import Mtrtk.Sampler

/-!
# Rollups agree with the seconds

The one minute that may be stale is the one in progress. An epoch in another minute rolls the last
one up after its own row is in, so it is that epoch's minute that may be stale from then on, whether
it comes for the first time or again (`Inv.enterMinute`).

`rollups_agree` : after every message each other minute with samples has its aggregate, and no other
row is there. After the final rollup it is every minute.
-/

namespace Mtrtk

namespace Sampler

/-- The row of a minute is the aggregate of its samples. -/
def RolledUp (s : State) (minute : ℤ) : Prop :=
  minuteRows s.samples1s (minute * 60) ≠ [] →
    rowAt RollupRow.ts s.samples1m (minute * 60) =
      some (rollupRow (minute * 60) (minuteRows s.samples1s (minute * 60)))

/-- Each row is of a minute with samples, and there is one for a minute. -/
structure Founded (s : State) : Prop where
  keys : (s.samples1m.map RollupRow.ts).Nodup
  rows : ∀ r ∈ s.samples1m, ∃ minute, r.ts = minute * 60 ∧
    minuteRows s.samples1s (minute * 60) ≠ []

/-- What holds of the tables. -/
structure Inv (s : State) : Prop where
  seconds : (s.samples1s.map SampleRow.ts).Nodup
  founded : Founded s
  rolledUp : ∀ minute, s.currentMinute ≠ some minute → RolledUp s minute

variable {s : State} {row : SampleRow} {minute : ℤ}

theorem mem_minute {ts : ℤ} : (minute * 60 ≤ ts ∧ ts < minute * 60 + 60) ↔ ts / 60 = minute := by
  omega

theorem mem_minuteRows {r : SampleRow} {rows : List SampleRow} :
    r ∈ minuteRows rows (minute * 60) ↔ r ∈ rows ∧ r.ts / 60 = minute := by
  rw [minuteRows, List.mem_filter, decide_eq_true_iff, mem_minute]

/-- A sample changes its own minute only. -/
theorem minuteRows_insert (h : row.ts / 60 ≠ minute) :
    minuteRows (s.insert row).samples1s (minute * 60) =
      minuteRows s.samples1s (minute * 60) := by
  refine filter_insertOrReplace ?_ fun r hr => ?_
  · rw [decide_eq_false_iff_not, mem_minute]
    exact h
  · rw [decide_eq_false_iff_not, mem_minute, hr]
    exact h

theorem minuteRows_insert_ne_nil (h : minuteRows s.samples1s (minute * 60) ≠ []) :
    minuteRows (s.insert row).samples1s (minute * 60) ≠ [] := by
  by_cases hrow : row.ts / 60 = minute
  · exact List.ne_nil_of_mem (mem_minuteRows.2 ⟨mem_insertOrReplace.2 (.inr rfl), hrow⟩)
  · rwa [minuteRows_insert hrow]

theorem Founded.insert (h : Founded s) (row : SampleRow) : Founded (s.insert row) where
  keys := h.keys
  rows r hr := by
    obtain ⟨minute, hts, hne⟩ := h.rows r hr
    exact ⟨minute, hts, minuteRows_insert_ne_nil hne⟩

theorem RolledUp.insert (h : RolledUp s minute) (hrow : row.ts / 60 ≠ minute) :
    RolledUp (s.insert row) minute := by
  rw [RolledUp, minuteRows_insert hrow]
  exact h

/-! ## A rollup -/

theorem rollupMinute_samples (s : State) (minuteTs : ℤ) :
    (s.rollupMinute minuteTs).samples1s = s.samples1s ∧
      (s.rollupMinute minuteTs).currentMinute = s.currentMinute := by
  simp only [State.rollupMinute]
  split <;> exact ⟨rfl, rfl⟩

theorem minute_start (minute : ℤ) : minute * 60 / 60 * 60 = minute * 60 := by
  rw [Int.mul_ediv_cancel _ (by decide)]

/-- The row of the minute. -/
theorem rolledUp_rollupMinute (s : State) (minute : ℤ) :
    RolledUp (s.rollupMinute (minute * 60)) minute := by
  intro hne
  rw [(rollupMinute_samples s _).1] at hne ⊢
  simp only [State.rollupMinute, minute_start]
  rw [if_neg (by simpa using hne), rowAt_insertOrReplace]
  exact if_pos rfl

/-- The others are as they were. -/
theorem RolledUp.rollupMinute {m : ℤ} (h : RolledUp s m) (hne : minute ≠ m) :
    RolledUp (s.rollupMinute (minute * 60)) m := by
  rw [RolledUp, (rollupMinute_samples s _).1]
  simp only [State.rollupMinute, minute_start]
  split
  · exact h
  · rw [rowAt_insertOrReplace, if_neg]
    · exact h
    · intro (heq : minute * 60 = m * 60)
      exact hne (by omega)

theorem Founded.rollupMinute (h : Founded s) (minute : ℤ) :
    Founded (s.rollupMinute (minute * 60)) := by
  simp only [State.rollupMinute, minute_start]
  split
  next => exact h
  next hne =>
    refine ⟨nodup_insertOrReplace h.keys _, fun r hr => ?_⟩
    rcases mem_insertOrReplace.1 hr with ⟨hr, -⟩ | rfl
    · exact h.rows r hr
    · exact ⟨minute, rfl, by simpa using hne⟩

/-! ## The messages -/

theorem lastPrune_enterMinute (s : State) (minute : ℤ) :
    (s.enterMinute minute).lastPrune = s.lastPrune := by
  simp only [State.enterMinute, State.rollupMinute]
  split
  · rfl
  · split
    · split <;> rfl
    · rfl

/-- The sample of a minute is in, and the minute of the last one is rolled up where it is another
one. -/
theorem Inv.enterMinute (h : Inv s) (row : SampleRow) :
    Inv ((s.insert row).enterMinute (row.ts / 60)) := by
  have hfounded := h.founded.insert row
  have hseconds := nodup_insertOrReplace h.seconds row
  unfold State.enterMinute
  cases hcur : s.currentMinute with
  | none =>
    have hcur' : (s.insert row).currentMinute = none := hcur
    simp only [hcur']
    refine ⟨hseconds, ⟨hfounded.keys, hfounded.rows⟩, fun minute hne => ?_⟩
    exact (h.rolledUp minute (by simp [hcur])).insert fun heq => hne (congrArg some heq)
  | some previous =>
    have hcur' : (s.insert row).currentMinute = some previous := hcur
    simp only [hcur']
    by_cases hsame : row.ts / 60 = previous
    · rw [if_neg (not_not.2 hsame)]
      refine ⟨hseconds, ⟨hfounded.keys, hfounded.rows⟩, fun minute hne => ?_⟩
      refine (h.rolledUp minute ?_).insert fun heq => hne (congrArg some heq)
      rw [hcur, ← hsame]
      exact hne
    · have hrolled := hfounded.rollupMinute previous
      rw [if_pos hsame]
      refine ⟨?_, ⟨hrolled.keys, hrolled.rows⟩, fun minute hne => ?_⟩
      · rw [(rollupMinute_samples (s.insert row) _).1]
        exact hseconds
      · -- The last minute is rolled up, and the new one may be stale.
        by_cases hp : previous = minute
        · subst hp
          exact rolledUp_rollupMinute (s.insert row) previous
        · refine RolledUp.rollupMinute ?_ hp
          refine (h.rolledUp minute ?_).insert fun heq => hne (congrArg some heq)
          rw [hcur]
          exact fun heq => hp (Option.some.inj heq)

theorem Inv.onEpoch {keep : Retention} {state : ReceiverState} {now : ℚ} (h : Inv s)
    (hprune : s.unpruned (.epoch state now) = true) : Inv (s.onEpoch keep state now) := by
  unfold State.onEpoch
  cases hrow : sampleRow state s.system s.ntripClients with
  | none => exact h
  | some row =>
    have hutc : state.utc ≠ none := fun hnone => by simp [sampleRow, hnone] at hrow
    have hlate : ¬((s.insert row).enterMinute (row.ts / 60)).prunes now = true := by
      have hsame : (s.insert row).lastPrune = s.lastPrune := rfl
      rw [State.prunes, lastPrune_enterMinute, hsame]
      simpa [State.unpruned, hutc, State.prunes] using hprune
    simp only [State.pruneWhenDue, if_neg hlate]
    exact h.enterMinute row

theorem Inv.handle {keep : Retention} {msg : Message} (h : Inv s)
    (hprune : s.unpruned msg = true) : Inv (s.handle keep msg) := by
  cases msg with
  | systemStats stats => exact ⟨h.seconds, ⟨h.founded.keys, h.founded.rows⟩, h.rolledUp⟩
  | ntripClients count => exact ⟨h.seconds, ⟨h.founded.keys, h.founded.rows⟩, h.rolledUp⟩
  | epoch state now => exact h.onEpoch hprune

/-! ## Runs -/

/-- The messages of a run, one after the other. -/
def step (keep : Retention) (s : State) (msg : Message) : Option State := some (s.handle keep msg)

theorem inv_of_reachable {keep : Retention}
    (h : Reachable (guarded (step keep) State.unpruned) {} s) : Inv s := by
  refine h.invariant Inv ⟨by simp, ⟨by simp, by simp⟩, fun _ _ hne => absurd rfl hne⟩ ?_
  intro t msg t' _ ht hs
  obtain ⟨hprune, hs⟩ := guarded_eq_some.1 hs
  obtain rfl := Option.some.inj hs
  exact ht.handle hprune

/-- In a run that does not prune, the rollups agree with the seconds but for the minute in progress,
and after the final rollup for every minute. -/
theorem rollups_agree {keep : Retention}
    (h : Reachable (guarded (step keep) State.unpruned) {} s) :
    (∀ minute, s.currentMinute ≠ some minute → RolledUp s minute) ∧ Founded s ∧
      (∀ minute, RolledUp s.finalRollup minute) ∧ Founded s.finalRollup := by
  have hinv := inv_of_reachable h
  refine ⟨hinv.rolledUp, hinv.founded, fun minute => ?_, ?_⟩
  · unfold State.finalRollup
    cases hcur : s.currentMinute with
    | none => exact hinv.rolledUp minute (by simp [hcur])
    | some current =>
      by_cases hm : current = minute
      · subst hm
        exact rolledUp_rollupMinute s current
      · refine RolledUp.rollupMinute (hinv.rolledUp minute ?_) hm
        rw [hcur]
        exact fun heq => hm (Option.some.inj heq)
  · unfold State.finalRollup
    cases s.currentMinute with
    | none => exact hinv.founded
    | some current => exact hinv.founded.rollupMinute current

/-- An epoch before a minute starts and one after it. -/
theorem rollups_agree_two :
    ∃ s : State, s.samples1m.length = 1 ∧ RolledUp s 0 ∧ RolledUp s.finalRollup 1 := by
  have hrun : ((run (guarded (step ⟨0, 0⟩) State.unpruned) {}
      [.epoch { utc := some 59 } 1, .epoch { utc := some 60 } 2]).map
        fun s => (s.samples1m.length, s.currentMinute)) = some (1, some 1) := by decide +kernel
  obtain ⟨s, hs, hlength⟩ := Option.map_eq_some_iff.1 hrun
  obtain ⟨hlength, hcur⟩ := Prod.mk.inj hlength
  obtain ⟨hrolled, -, hfinal, -⟩ := rollups_agree ⟨_, hs⟩
  exact ⟨s, hlength, hrolled 0 (by simp [hcur]), hfinal 1⟩

end Sampler

end Mtrtk
