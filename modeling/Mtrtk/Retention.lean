import Mathlib.Data.List.Sort
import Mathlib.Data.List.Infix
import Mathlib.Order.Defs.LinearOrder
import Mtrtk.KeepMark

/-!
# Retention

`rawlog/retention.py` and `rawlog/index.py` : a pass of `RetentionPolicy` lists the raw logs by hour
and deletes the oldest ones that are not marked `keep` until the disk is above the floor.
`prune_once` and `prune` are written separately, `prune` with a `reclaim` between two looks at the
disk.

The pass sees the disk as a function of what it has done so far (`Disk.free`). A `ShortestPrefix` is
what a pass should delete of the files it may : in order, and no more than it takes to be above the
floor. The file being written is told by its place at the end of the listing, so where two stations
have a file in the newest hour one of them is taken for old (`open_hour_deleted`).
`prunes_policy_iff` says when the pass deletes what it should, and that the two forms of it agree.
-/

namespace Mtrtk

/-! ## The listing -/

/-- A raw log and its path. -/
structure RawLogFile extends LogFile where
  path : String
  deriving DecidableEq

/-- `hour_end`. -/
def RawLogFile.hourEnd (lf : RawLogFile) : ℤ := lf.hourUtc + 1

/-- What `_load_logfile` finds out about a path : station and hour of its name, its size if it is
still there, and its sidecar if one can be loaded. -/
structure FoundFile where
  path : String
  parsed : Option (String × ℤ)
  size : Option ℕ
  sidecar : Option Sidecar := none
  deriving DecidableEq

/-- `_load_logfile`. -/
def FoundFile.load (found : FoundFile) : Option RawLogFile := do
  let (stationId, hourUtc) ← found.parsed
  let bytes ← found.size
  match found.sidecar with
  | none => some { path := found.path, stationId, hourUtc, bytes, complete := false, keep := false }
  | some sc =>
    some
      { path := found.path, stationId, hourUtc, bytes, complete := sc.complete, keep := sc.keep
        msgCounts := sc.msgCounts, startUtc := sc.startUtc, endUtc := sc.endUtc, site := sc.site }

/-- `list_logs`. -/
def listLogs (found : List FoundFile) : List RawLogFile :=
  (found.filterMap FoundFile.load).insertionSort fun a b => a.hourUtc ≤ b.hourUtc

/-! ## The policy -/

namespace Retention

/-- What a pass does. -/
inductive Act
  | reclaimed (hourEnd : ℤ)
  | deleted (lf : RawLogFile)
  deriving DecidableEq

def Act.log? : Act → Option RawLogFile
  | .reclaimed _ => none
  | .deleted lf => some lf

/-- What a pass has deleted. -/
def deletedOf (acts : List Act) : List RawLogFile := acts.filterMap Act.log?

/-- The disk as a pass sees it : the free bytes after what it has done, the bytes of exports in
progress, and the division by `GB`. -/
structure Disk (α : Type*) where
  free : List Act → ℕ
  staging : ℕ
  gb : ℕ → α

variable {α : Type*} [LinearOrder α] (disk : Disk α) (minFreeGb : α)

/-- `free_gb`. -/
def Disk.freeGb (acts : List Act) : α := disk.gb (disk.free acts + disk.staging)

/-- `_prunable`. -/
def prunable (logs : List RawLogFile) : List RawLogFile :=
  if logs.length < 2 then [] else logs.dropLast.filter fun lf => !lf.keep

/-- The loop of `_prune`, with what was done before it. -/
def pruneLoop (acts : List Act) : List RawLogFile → List Act
  | [] => acts
  | victim :: candidates =>
    if disk.freeGb acts < minFreeGb then
      if minFreeGb ≤ disk.freeGb (acts ++ [.deleted victim]) then acts ++ [.deleted victim]
      else pruneLoop (acts ++ [.deleted victim]) candidates
    else acts

/-- `_prune`. -/
def pruneLogs (logs : List RawLogFile) : List Act :=
  pruneLoop disk minFreeGb [] (prunable logs)

/-- `prune_once`. -/
def pruneOnce (found : List FoundFile) : List Act := pruneLogs disk minFreeGb (listLogs found)

/-- The loop of `prune`. -/
def reclaimLoop (acts : List Act) : List RawLogFile → List Act
  | [] => acts
  | victim :: candidates =>
    if minFreeGb ≤ disk.freeGb acts then acts
    else
      let acts := acts ++ [.reclaimed victim.hourEnd]
      if minFreeGb ≤ disk.freeGb acts then acts
      else reclaimLoop (acts ++ [.deleted victim]) candidates

/-- `prune`, `reclaim` says whether there is one. -/
def prune (reclaim : Bool) (found : List FoundFile) : List Act :=
  if reclaim then reclaimLoop disk minFreeGb [] (prunable (listLogs found))
  else pruneLogs disk minFreeGb (listLogs found)

/-! ## What should be deleted -/

/-- A prefix of what is wanted that reaches a goal and is the shortest to do so, all of it if none
does. -/
structure ShortestPrefix {β : Type*} (reached : List β → Prop) (wanted done : List β) : Prop where
  isPrefix : done <+: wanted
  enough : reached done ∨ done = wanted
  least : ∀ shorter, shorter <+: done → reached shorter → shorter = done

namespace ShortestPrefix

variable {β : Type*} {reached : List β → Prop} {wanted done done' : List β} {b : β}

theorem nil (h : reached []) : ShortestPrefix reached wanted [] where
  isPrefix := List.nil_prefix
  enough := .inl h
  least _ hp _ := List.prefix_nil.1 hp

theorem none_wanted : ShortestPrefix reached [] [] where
  isPrefix := List.nil_prefix
  enough := .inr rfl
  least _ hp _ := List.prefix_nil.1 hp

theorem cons (hnot : ¬ reached [])
    (h : ShortestPrefix (fun l => reached (b :: l)) wanted done) :
    ShortestPrefix reached (b :: wanted) (b :: done) where
  isPrefix := List.prefix_cons_inj b |>.2 h.isPrefix
  enough := h.enough.imp_right fun heq => by rw [heq]
  least shorter hp hreached := by
    cases shorter with
    | nil => exact absurd hreached hnot
    | cons c shorter =>
      obtain ⟨rfl, htail⟩ := List.cons_prefix_cons.1 hp
      rw [h.least shorter htail hreached]

/-- There is only one. -/
theorem unique (h : ShortestPrefix reached wanted done) (h' : ShortestPrefix reached wanted done') :
    done = done' := by
  wlog hle : done.length ≤ done'.length generalizing done done'
  · exact (this h' h (by omega)).symm
  have hp : done <+: done' := List.prefix_of_prefix_length_le h.isPrefix h'.isPrefix hle
  rcases h.enough with hreached | rfl
  · exact h'.least done hp hreached
  · exact hp.eq_of_length_le h'.isPrefix.length_le

/-- More may be wanted where the goal is reached without it, and only there. -/
theorem append_iff {more : List β} (h : ShortestPrefix reached (wanted ++ more) done) :
    ShortestPrefix reached wanted done ↔ more = [] ∨ ∃ p, p <+: wanted ∧ reached p := by
  constructor
  · intro hdone
    rcases hdone.enough with hreached | rfl
    · exact .inr ⟨done, hdone.isPrefix, hreached⟩
    · rcases h.enough with hreached | heq
      · exact .inr ⟨done, List.prefix_rfl, hreached⟩
      · exact .inl (List.self_eq_append_right.1 heq)
  · rintro (rfl | ⟨p, hp, hreached⟩)
    · rwa [List.append_nil] at h
    · have hall : p <+: wanted ++ more := hp.trans (List.prefix_append _ _)
      have hle : done.length ≤ p.length := by
        by_contra hlt
        have hpd := List.prefix_of_prefix_length_le hall h.isPrefix (by omega)
        exact hlt (congrArg List.length (h.least p hpd hreached)).ge
      have hdone : done <+: p := List.prefix_of_prefix_length_le h.isPrefix hall hle
      refine ⟨hdone.trans hp, h.enough.imp_right fun heq => ?_, h.least⟩
      refine (hdone.trans hp).eq_of_length_le ?_
      rw [heq, List.length_append]
      omega

end ShortestPrefix

/-- The files that are neither marked `keep` nor of the newest hour there is. -/
def unprotected (logs : List RawLogFile) : List RawLogFile :=
  logs.filter fun lf => !lf.keep && logs.any fun other => lf.hourUtc < other.hourUtc

/-- The files of the newest hour that are not marked `keep`, the last one of the listing apart. -/
def mistaken (logs : List RawLogFile) : List RawLogFile :=
  logs.dropLast.filter fun lf => !lf.keep && !logs.any fun other => lf.hourUtc < other.hourUtc

/-- Whether the disk is above the floor when these files were deleted. -/
def Reached (deleted : List RawLogFile) : Prop :=
  minFreeGb ≤ disk.freeGb (deleted.map .deleted)

instance (deleted : List RawLogFile) : Decidable (Reached disk minFreeGb deleted) :=
  inferInstanceAs (Decidable (_ ≤ _))

/-- A `reclaim` frees nothing. -/
def Disk.FreesNothing : Prop := ∀ acts, disk.free acts = disk.free ((deletedOf acts).map .deleted)

/-! ## The two loops -/

theorem pruneLoop_spec (candidates : List RawLogFile) : ∀ acts, ∃ done,
    pruneLoop disk minFreeGb acts candidates = acts ++ done.map .deleted ∧
      ShortestPrefix (fun l => minFreeGb ≤ disk.freeGb (acts ++ l.map .deleted)) candidates
        done := by
  induction candidates with
  | nil => exact fun acts => ⟨[], by simp [pruneLoop], .none_wanted⟩
  | cons victim candidates ih =>
    intro acts
    rw [pruneLoop]
    split
    · rename_i hbelow
      have hnot : ¬ minFreeGb ≤ disk.freeGb (acts ++ [].map .deleted) := by simpa using hbelow
      split
      · rename_i hreached
        exact ⟨[victim], by simp, .cons hnot (.nil (by simpa using hreached))⟩
      · obtain ⟨done, heq, hshort⟩ := ih (acts ++ [.deleted victim])
        exact ⟨victim :: done, by simp [heq], .cons hnot (by simpa using hshort)⟩
    · rename_i habove
      exact ⟨[], by simp, .nil (by simpa using habove)⟩

theorem deletedOf_append (acts acts' : List Act) :
    deletedOf (acts ++ acts') = deletedOf acts ++ deletedOf acts' := List.filterMap_append

@[simp] theorem deletedOf_map (logs : List RawLogFile) : deletedOf (logs.map .deleted) = logs := by
  simp [deletedOf, Function.comp_def, Act.log?]

theorem reclaimLoop_spec (hreclaim : disk.FreesNothing) (candidates : List RawLogFile) :
    ∀ acts, ∃ done,
      deletedOf (reclaimLoop disk minFreeGb acts candidates) = deletedOf acts ++ done ∧
        ShortestPrefix (fun l => Reached disk minFreeGb (deletedOf acts ++ l)) candidates done := by
  have hfree : ∀ acts, disk.freeGb acts = disk.freeGb ((deletedOf acts).map .deleted) := fun acts =>
    congrArg (fun n => disk.gb (n + disk.staging)) (hreclaim acts)
  induction candidates with
  | nil => exact fun acts => ⟨[], by simp [reclaimLoop], .none_wanted⟩
  | cons victim candidates ih =>
    intro acts
    have hasked : deletedOf (acts ++ [.reclaimed victim.hourEnd]) = deletedOf acts := by
      simp [deletedOf, Act.log?]
    have hdone : deletedOf (acts ++ [.reclaimed victim.hourEnd] ++ [.deleted victim]) =
        deletedOf acts ++ [victim] := by
      rw [deletedOf_append, hasked]
      rfl
    rw [reclaimLoop]
    split
    · rename_i habove
      rw [hfree] at habove
      exact ⟨[], by simp, .nil (by simpa [Reached] using habove)⟩
    · rename_i hbelow
      rw [hfree] at hbelow
      have hnot : ¬ Reached disk minFreeGb (deletedOf acts ++ []) := by simpa [Reached] using hbelow
      simp only []
      split
      · rename_i habove
        rw [hfree, hasked] at habove
        exact absurd (by simpa [Reached] using habove) hnot
      · obtain ⟨done, heq, hshort⟩ := ih (acts ++ [.reclaimed victim.hourEnd] ++ [.deleted victim])
        rw [hdone] at heq hshort
        exact ⟨victim :: done, heq.trans (by simp), .cons hnot (by simpa using hshort)⟩

/-! ## A pass -/

/-- What comes first in a list, then the rest. -/
theorem filter_split {β : Type*} {p q : β → Bool} {l : List β}
    (h : l.Pairwise fun a b => q b = true → q a = true) :
    (l.filter fun b => p b && q b) ++ (l.filter fun b => p b && !q b) = l.filter p := by
  induction l with
  | nil => rfl
  | cons a l ih =>
    obtain ⟨hfirst, hrest⟩ := List.pairwise_cons.1 h
    cases hq : q a with
    | true => cases hp : p a <;> simp [hq, hp, ih hrest]
    | false =>
      have hnone : (l.filter fun b => p b && q b) = [] := by
        rw [List.filter_eq_nil_iff]
        intro b hb hpq
        have := hfirst b hb (Bool.and_eq_true_iff.1 hpq).2
        simp [hq] at this
      have hrest := ih hrest
      rw [hnone, List.nil_append] at hrest
      cases hp : p a <;> simp [hq, hp, hnone, hrest]

theorem pairwise_listLogs (found : List FoundFile) :
    (listLogs found).Pairwise fun a b => a.hourUtc ≤ b.hourUtc := by
  let r : RawLogFile → RawLogFile → Prop := fun a b => a.hourUtc ≤ b.hourUtc
  have : Std.Total r := ⟨fun a b => le_total a.hourUtc b.hourUtc⟩
  have : IsTrans RawLogFile r := ⟨fun a b c => le_trans⟩
  exact List.pairwise_insertionSort r _

theorem prunable_eq {logs : List RawLogFile}
    (h : logs.Pairwise fun a b => a.hourUtc ≤ b.hourUtc) :
    prunable logs = unprotected logs ++ mistaken logs := by
  rcases logs.eq_nil_or_concat' with rfl | ⟨init, last, rfl⟩
  · rfl
  have hprunable : prunable (init ++ [last]) = init.filter fun lf => !lf.keep := by
    unfold prunable
    cases init with
    | nil => rfl
    | cons => rw [if_neg (by simp), List.dropLast_concat]
  have hlast : ∀ other ∈ init, other.hourUtc ≤ last.hourUtc := fun other hother =>
    (List.pairwise_append.1 h).2.2 other hother last (by simp)
  have hsplit := filter_split (p := fun lf => !lf.keep)
    (q := fun lf => (init ++ [last]).any fun other => lf.hourUtc < other.hourUtc) (l := init)
    ((List.pairwise_append.1 h).1.imp fun {a b} hab hlater => ?_)
  · rw [hprunable, ← hsplit, unprotected, mistaken, List.dropLast_concat, List.filter_append]
    simpa using fun _ => hlast
  · obtain ⟨other, hother, hlt⟩ := List.any_eq_true.1 hlater
    refine List.any_eq_true.2 ⟨other, hother, ?_⟩
    simp only [decide_eq_true_eq] at hlt ⊢
    omega

theorem pruneOnce_spec (found : List FoundFile) : ShortestPrefix (Reached disk minFreeGb)
    (prunable (listLogs found)) (deletedOf (pruneOnce disk minFreeGb found)) := by
  obtain ⟨done, heq, hshort⟩ := pruneLoop_spec disk minFreeGb (prunable (listLogs found)) []
  rw [pruneOnce, pruneLogs, heq, List.nil_append, deletedOf_map]
  exact hshort

/-- The two forms of a pass delete the same, where `reclaim` frees nothing. -/
theorem prune_eq_pruneOnce (hreclaim : disk.FreesNothing) (reclaim : Bool)
    (found : List FoundFile) :
    deletedOf (prune disk minFreeGb reclaim found) =
      deletedOf (pruneOnce disk minFreeGb found) := by
  cases reclaim with
  | false => rfl
  | true =>
    obtain ⟨done, heq, hshort⟩ :=
      reclaimLoop_spec disk minFreeGb hreclaim (prunable (listLogs found)) []
    have hdone : deletedOf (prune disk minFreeGb true found) = done := heq
    rw [hdone]
    exact hshort.unique (pruneOnce_spec disk minFreeGb found)

/-- **A pass deletes what the policy says, in both forms the same, if and only if** the last of the
listing is the only unmarked file of the newest hour, or the floor is reached without one of
these. -/
theorem prunes_policy_iff (hreclaim : disk.FreesNothing) (reclaim : Bool)
    (found : List FoundFile) :
    (ShortestPrefix (Reached disk minFreeGb) (unprotected (listLogs found))
        (deletedOf (pruneOnce disk minFreeGb found)) ∧
      deletedOf (prune disk minFreeGb reclaim found) =
        deletedOf (pruneOnce disk minFreeGb found)) ↔
      mistaken (listLogs found) = [] ∨
        ∃ logs, logs <+: unprotected (listLogs found) ∧ Reached disk minFreeGb logs := by
  have hspec := pruneOnce_spec disk minFreeGb found
  rw [prunable_eq (pairwise_listLogs found)] at hspec
  rw [and_iff_left (prune_eq_pruneOnce disk minFreeGb hreclaim reclaim found)]
  exact hspec.append_iff

/-! ## Two stations in the newest hour -/

/-- A full card, with files of 1 GB. -/
def smallCard : Disk ℕ where
  free acts := (deletedOf acts).length
  staging := 0
  gb := id

/-- The station was renamed within the hour : `AAAA` has an old hour, `BBBB` writes the newest. -/
def renamed : List FoundFile :=
  [{ path := "ubx/2026/001/AAAA_20260101_00.ubx", parsed := some ("AAAA", 0), size := some 1 },
    { path := "ubx/2026/001/BBBB_20260101_01.ubx", parsed := some ("BBBB", 1), size := some 1 },
    { path := "ubx/2026/001/AAAA_20260101_01.ubx", parsed := some ("AAAA", 1), size := some 1 }]

theorem prunes_policy_iff_enough :
    ShortestPrefix (Reached smallCard 1) (unprotected (listLogs renamed))
        (deletedOf (pruneOnce smallCard 1 renamed)) ∧
      deletedOf (prune smallCard 1 true renamed) = deletedOf (pruneOnce smallCard 1 renamed) :=
  (prunes_policy_iff smallCard 1 (fun _ => by simp [smallCard]) true renamed).2
    (.inr ⟨unprotected (listLogs renamed), List.prefix_rfl, by decide⟩)

/-- The floor is two files off, and only one may go : the file that `BBBB` has open goes too. -/
theorem open_hour_deleted :
    (deletedOf (pruneOnce smallCard 2 renamed)).map RawLogFile.path =
        ["ubx/2026/001/AAAA_20260101_00.ubx", "ubx/2026/001/BBBB_20260101_01.ubx"] ∧
      (unprotected (listLogs renamed)).map RawLogFile.path =
        ["ubx/2026/001/AAAA_20260101_00.ubx"] ∧
      ¬ ShortestPrefix (Reached smallCard 2) (unprotected (listLogs renamed))
        (deletedOf (pruneOnce smallCard 2 renamed)) := by
  refine ⟨by decide, by decide, fun h => ?_⟩
  have hlength := h.isPrefix.length_le
  exact absurd hlength (by decide)

end Retention

end Mtrtk
