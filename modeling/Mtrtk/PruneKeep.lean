import Mtrtk.Retention
import Mtrtk.Run

/-!
# Keep marks and a retention pass

A pass of `RetentionPolicy.prune` reads the `keep` of every hour once, when it lists them in a
thread, and goes by that for as long as it takes : with a `reclaim` there is an await before every
hour it deletes. `PATCH /api/logs/{name}` writes the mark on disk at any moment of it.

`RetentionRun.step` has one pass after the other, any number of requests, and the logger, in any
order. A mark that reaches the disk after the pass has read the hour without it comes too late
(`marked_while_reclaiming`). In every run without one, no file is deleted whose sidecar says `keep`
(`kept_spared`).
-/

namespace Mtrtk

/-- Where a pass is. -/
inductive PassPc
  | idle
  /-- In the thread, with what was read so far. -/
  | listing (logs : List RawLogFile)
  | pruning (candidates : List RawLogFile)
  /-- It awaits `reclaim` before it deletes the victim. -/
  | reclaiming (victim : RawLogFile) (candidates : List RawLogFile)
  deriving DecidableEq

/-- How far a `PATCH` has come. -/
inductive PatchPc
  | sent
  | resolved (lf : RawLogFile) (keep : Bool)
  | loaded (path : String) (sidecar : Sidecar) (keep : Bool)
  | answered
  deriving DecidableEq

/-- The card, the pass and the requests. `parse` is `parse_log_name`, `deletions` the files deleted
by a pass, each with whether its sidecar on disk said `keep` at that moment. -/
structure RetentionRun where
  parse : String → Option (String × ℤ)
  /-- The size of a file. -/
  file : String → Option ℕ := fun _ => none
  sidecar : String → Option Sidecar := fun _ => none
  reclaim : Bool := true
  pass : PassPc := .idle
  requests : ℕ → PatchPc := fun _ => .sent
  deletions : List (String × Bool) := []

namespace RetentionRun

inductive Event
  /-- A pass begins. -/
  | begin
  /-- The thread loads a path. -/
  | read (path : String)
  | listed
  /-- `_prune`, on a disk and with a floor. -/
  | sweep (disk : Retention.Disk ℚ) (minFreeGb : ℚ)
  /-- `prune` looks at the free space before `reclaim`. -/
  | look (enough : Bool)
  /-- `reclaim` has returned or raised, and `prune` looks again. -/
  | reclaimed (enough : Bool)
  /-- The pass raises. -/
  | raised
  /-- A request comes in, and finds its file. -/
  | patch (request : ℕ) (path : String) (keep : Bool)
  | load (request : ℕ) (role : String)
  | dump (request : ℕ)
  /-- The sidecar cannot be written. -/
  | refused (request : ℕ)
  /-- The logger writes a file and its sidecar. -/
  | logged (path : String) (size : ℕ) (sidecar : Sidecar)
  /-- A file is deleted by somebody else. -/
  | erased (path : String)

variable (s : RetentionRun)

/-- Whether the sidecar on disk says `keep`. -/
def kept (path : String) : Bool := (s.sidecar path).any Sidecar.keep

/-- What there is to load at a path. -/
def found (path : String) : FoundFile :=
  { path, parsed := s.parse path, size := s.file path, sidecar := s.sidecar path }

/-- `_delete`. -/
def delete (victim : RawLogFile) : RetentionRun :=
  { s with
    file := Function.update s.file victim.path none
    sidecar := Function.update s.sidecar victim.path none
    deletions := s.deletions ++ [(victim.path, s.kept victim.path)] }

def setRequest (request : ℕ) (pc : PatchPc) : RetentionRun :=
  { s with requests := Function.update s.requests request pc }

def setSidecar (path : String) (sidecar : Sidecar) : RetentionRun :=
  { s with sidecar := Function.update s.sidecar path (some sidecar) }

def onPass : Event → Option RetentionRun
  | .begin =>
    match s.pass with
    | .idle => some { s with pass := .listing [] }
    | _ => none
  | .read path =>
    match s.pass with
    | .listing logs => some { s with pass := .listing (logs ++ (s.found path).load.toList) }
    | _ => none
  | .listed =>
    match s.pass with
    | .listing logs => some { s with
        pass := .pruning (Retention.prunable
          (logs.insertionSort fun a b => a.hourUtc ≤ b.hourUtc)) }
    | _ => none
  | .sweep disk minFreeGb =>
    match s.pass, s.reclaim with
    | .pruning candidates, false =>
      let victims := Retention.deletedOf (Retention.pruneLoop disk minFreeGb [] candidates)
      some { victims.foldl delete s with pass := .idle }
    | _, _ => none
  | .look enough =>
    match s.pass, s.reclaim with
    | .pruning [], true => some { s with pass := .idle }
    | .pruning (victim :: candidates), true =>
      some { s with pass := if enough then .idle else .reclaiming victim candidates }
    | _, _ => none
  | .reclaimed enough =>
    match s.pass with
    | .reclaiming victim candidates =>
      some (if enough then { s with pass := .idle }
        else { s.delete victim with pass := .pruning candidates })
    | _ => none
  | .raised => some { s with pass := .idle }
  | _ => none

def step : Event → Option RetentionRun
  | .patch request path keep =>
    match s.requests request with
    | .sent => (s.found path).load.map fun lf => s.setRequest request (.resolved lf keep)
    | _ => none
  | .load request role =>
    match s.requests request with
    | .resolved lf keep => some (s.setRequest request
        (.loaded lf.path ((s.sidecar lf.path).getD (lf.rebuild role)) keep))
    | _ => none
  | .dump request =>
    match s.requests request with
    | .loaded path sidecar keep =>
      some ((s.setSidecar path { sidecar with keep }).setRequest request .answered)
    | _ => none
  | .refused request =>
    match s.requests request with
    | .loaded _ _ _ => some (s.setRequest request .answered)
    | _ => none
  | .logged path size sidecar =>
    some ({ s with file := Function.update s.file path (some size) }.setSidecar path sidecar)
  | .erased path =>
    some { s with
      file := Function.update s.file path none
      sidecar := Function.update s.sidecar path none }
  | e => s.onPass e

/-! ## What a pass goes by -/

/-- The files a pass has read without a mark, and may yet delete. -/
def unmarked : List RawLogFile :=
  match s.pass with
  | .idle => []
  | .listing logs => logs.filter fun lf => !lf.keep
  | .pruning candidates => candidates
  | .reclaiming victim candidates => victim :: candidates

/-- No mark reaches the disk behind the back of a pass. -/
def inTime : Event → Bool
  | .dump request =>
    match s.requests request with
    | .loaded path _ keep => !keep || s.unmarked.all fun lf => lf.path ≠ path
    | _ => true
  | .logged path _ sidecar => !sidecar.keep || s.unmarked.all fun lf => lf.path ≠ path
  | _ => true

/-- What a pass may delete is not marked on disk, and nothing that was has been deleted. -/
structure Inv (s : RetentionRun) : Prop where
  unmarked : ∀ lf ∈ s.unmarked, s.kept lf.path = false
  deletions : ∀ x ∈ s.deletions, x.2 = false

variable {s} {s' : RetentionRun}

theorem kept_of_load {path : String} {lf : RawLogFile} (h : (s.found path).load = some lf) :
    lf.path = path ∧ (lf.keep = false → s.kept path = false) := by
  unfold FoundFile.load at h
  simp only [found, Option.bind_eq_bind, Option.bind_eq_some_iff] at h
  obtain ⟨⟨stationId, hourUtc⟩, -, bytes, -, h⟩ := h
  split at h
  · rename_i hnone
    obtain rfl := Option.some.inj h
    exact ⟨rfl, fun _ => by simp [kept, hnone]⟩
  · rename_i sc hsome
    obtain rfl := Option.some.inj h
    exact ⟨rfl, fun hkeep => by simpa [kept, hsome] using hkeep⟩

/-- A mark is set on no file a pass goes by. -/
theorem Inv.marked (h : Inv s) {path : String} {sidecar : Sidecar}
    (hmark : sidecar.keep = false ∨ ∀ lf ∈ s.unmarked, lf.path ≠ path) :
    ∀ lf ∈ s.unmarked, (s.setSidecar path sidecar).kept lf.path = false := by
  intro lf hlf
  rcases eq_or_ne lf.path path with heq | hne
  · have hkeep := hmark.resolve_right fun hother => hother lf hlf heq
    simp [kept, setSidecar, heq, hkeep]
  · have := h.unmarked lf hlf
    simpa [kept, setSidecar, hne] using this

theorem kept_delete (victim : RawLogFile) {path : String} (h : s.kept path = false) :
    (s.delete victim).kept path = false := by
  rcases eq_or_ne path victim.path with rfl | hne
  · simp [kept, delete]
  · simpa [kept, delete, hne] using h

/-- Deleting what is not marked deletes nothing that is. -/
theorem deletions_foldl_delete (victims : List RawLogFile)
    (hvictims : ∀ lf ∈ victims, s.kept lf.path = false) (h : ∀ x ∈ s.deletions, x.2 = false) :
    ∀ x ∈ (victims.foldl delete s).deletions, x.2 = false := by
  induction victims generalizing s with
  | nil => exact h
  | cons victim victims ih =>
    refine ih (fun lf hlf => kept_delete victim (hvictims lf (by simp [hlf]))) fun x hx => ?_
    rcases List.mem_append.1 hx with hx | hx
    · exact h x hx
    · rw [List.mem_singleton.1 hx]
      exact hvictims victim (by simp)

theorem prunable_unmarked {logs : List RawLogFile} {lf : RawLogFile}
    (h : lf ∈ Retention.prunable logs) : lf ∈ logs ∧ lf.keep = false := by
  unfold Retention.prunable at h
  split at h
  · exact absurd h List.not_mem_nil
  · obtain ⟨hmem, hkeep⟩ := List.mem_filter.1 h
    exact ⟨List.dropLast_subset _ hmem, by simpa using hkeep⟩

/-- A pass deletes a part of its candidates. -/
theorem deletedOf_pruneLoop (disk : Retention.Disk ℚ) (minFreeGb : ℚ)
    (candidates : List RawLogFile) :
    Retention.deletedOf (Retention.pruneLoop disk minFreeGb [] candidates) <+: candidates := by
  obtain ⟨done, heq, hshort⟩ := Retention.pruneLoop_spec disk minFreeGb candidates []
  rw [heq, List.nil_append, Retention.deletedOf_map]
  exact hshort.isPrefix

theorem Inv.idle (h : Inv s) : Inv { s with pass := .idle } :=
  ⟨fun _ hlf => absurd hlf List.not_mem_nil, h.deletions⟩

theorem Inv.onPass (h : Inv s) {e : Event} (hs : s.onPass e = some s') : Inv s' := by
  cases e with
  | begin =>
    simp only [RetentionRun.onPass] at hs
    split at hs
    · obtain rfl := Option.some.inj hs
      exact ⟨fun _ hlf => absurd hlf List.not_mem_nil, h.deletions⟩
    · exact absurd hs.symm (Option.some_ne_none _)
  | read path =>
    simp only [RetentionRun.onPass] at hs
    split at hs
    · rename_i logs hpass
      obtain rfl := Option.some.inj hs
      refine ⟨fun lf hlf => ?_, h.deletions⟩
      obtain ⟨hmem, hkeep⟩ := List.mem_filter.1 hlf
      rcases List.mem_append.1 hmem with hold | hnew
      · exact h.unmarked lf (by simpa [RetentionRun.unmarked, hpass, hold] using hkeep)
      · obtain ⟨hpath, hread⟩ := kept_of_load (Option.mem_toList.1 hnew)
        rw [hpath]
        exact hread (by simpa using hkeep)
    · exact absurd hs.symm (Option.some_ne_none _)
  | listed =>
    simp only [RetentionRun.onPass] at hs
    split at hs
    · rename_i logs hpass
      obtain rfl := Option.some.inj hs
      refine ⟨fun lf hlf => ?_, h.deletions⟩
      obtain ⟨hmem, hkeep⟩ := prunable_unmarked hlf
      have hlogs : lf ∈ logs := (List.mem_insertionSort _).1 hmem
      exact h.unmarked lf (by simp [RetentionRun.unmarked, hpass, hlogs, hkeep])
    · exact absurd hs.symm (Option.some_ne_none _)
  | sweep disk minFreeGb =>
    simp only [RetentionRun.onPass] at hs
    split at hs
    · rename_i candidates hpass hreclaim
      obtain rfl := Option.some.inj hs
      have hvictims : ∀ lf ∈ candidates, s.kept lf.path = false := fun lf hlf =>
        h.unmarked lf (by simpa [RetentionRun.unmarked, hpass] using hlf)
      refine ⟨fun _ hlf => absurd hlf List.not_mem_nil, ?_⟩
      refine deletions_foldl_delete _ (fun lf hlf => hvictims lf ?_) h.deletions
      exact (deletedOf_pruneLoop disk minFreeGb candidates).subset hlf
    · exact absurd hs.symm (Option.some_ne_none _)
  | look enough =>
    simp only [RetentionRun.onPass] at hs
    split at hs
    · obtain rfl := Option.some.inj hs
      exact h.idle
    · rename_i victim candidates hpass hreclaim
      obtain rfl := Option.some.inj hs
      cases enough with
      | true => exact h.idle
      | false =>
        refine ⟨fun lf hlf => h.unmarked lf ?_, h.deletions⟩
        simpa [RetentionRun.unmarked, hpass] using hlf
    · exact absurd hs.symm (Option.some_ne_none _)
  | reclaimed enough =>
    simp only [RetentionRun.onPass] at hs
    split at hs
    · rename_i victim candidates hpass
      obtain rfl := Option.some.inj hs
      have hvictims : ∀ lf ∈ victim :: candidates, s.kept lf.path = false := fun lf hlf =>
        h.unmarked lf (by simpa [RetentionRun.unmarked, hpass] using hlf)
      cases enough with
      | true => exact h.idle
      | false =>
        refine ⟨fun lf hlf => kept_delete victim (hvictims lf (List.mem_cons_of_mem _ hlf)), ?_⟩
        exact deletions_foldl_delete [victim] (by simpa using hvictims victim (by simp)) h.deletions
    · exact absurd hs.symm (Option.some_ne_none _)
  | raised =>
    obtain rfl := Option.some.inj hs
    exact h.idle
  | patch | load | dump | refused | logged | erased => exact absurd hs.symm (Option.some_ne_none _)

theorem Inv.step (h : Inv s) {e : Event} (htime : s.inTime e = true) (hs : s.step e = some s') :
    Inv s' := by
  cases e with
  | patch request path keep =>
    simp only [RetentionRun.step] at hs
    split at hs
    · obtain ⟨lf, -, rfl⟩ := Option.map_eq_some_iff.1 hs
      exact ⟨h.unmarked, h.deletions⟩
    · exact absurd hs.symm (Option.some_ne_none _)
  | load request role =>
    simp only [RetentionRun.step] at hs
    split at hs
    · obtain rfl := Option.some.inj hs
      exact ⟨h.unmarked, h.deletions⟩
    · exact absurd hs.symm (Option.some_ne_none _)
  | dump request =>
    simp only [RetentionRun.step] at hs
    split at hs
    · rename_i path sidecar keep hrequest
      obtain rfl := Option.some.inj hs
      refine ⟨h.marked ?_, h.deletions⟩
      simpa [inTime, hrequest] using htime
    · exact absurd hs.symm (Option.some_ne_none _)
  | refused request =>
    simp only [RetentionRun.step] at hs
    split at hs
    · obtain rfl := Option.some.inj hs
      exact ⟨h.unmarked, h.deletions⟩
    · exact absurd hs.symm (Option.some_ne_none _)
  | logged path size sidecar =>
    obtain rfl := Option.some.inj hs
    refine ⟨h.marked ?_, h.deletions⟩
    simpa [inTime] using htime
  | erased path =>
    obtain rfl := Option.some.inj hs
    refine ⟨fun lf hlf => ?_, h.deletions⟩
    rcases eq_or_ne lf.path path with heq | hne
    · simp [kept, heq]
    · have := h.unmarked lf hlf
      simpa [kept, hne] using this
  | begin | read | listed | sweep | look | reclaimed | raised =>
    simp only [RetentionRun.step] at hs
    exact h.onPass hs

/-- **A kept hour is never pruned**, in every run in which no mark reaches the disk after a pass
has read the hour without it and before that pass is over. -/
theorem kept_spared (parse : String → Option (String × ℤ)) (file : String → Option ℕ)
    (sidecar : String → Option Sidecar) (reclaim : Bool) {s : RetentionRun}
    (h : Reachable (guarded step inTime) { parse, file, sidecar, reclaim } s) :
    ∀ x ∈ s.deletions, x.2 = false := by
  refine (h.invariant Inv ⟨fun _ hlf => absurd hlf List.not_mem_nil,
    fun _ hx => absurd hx List.not_mem_nil⟩ fun t e t' _ ht hs => ?_).deletions
  obtain ⟨htime, hs⟩ := guarded_eq_some.1 hs
  exact ht.step htime hs

/-! ## A mark before a pass, and one within -/

/-- Three hours of one station. -/
def threeHours : RetentionRun where
  parse path := if path = "a" then some ("AAAA", 0) else if path = "b" then some ("AAAA", 1)
    else if path = "c" then some ("AAAA", 2) else none
  file path := if path ∈ ["a", "b", "c"] then some 1 else none

/-- The oldest hour is marked before the pass, that deletes the next one. -/
theorem kept_spared_marked : ∃ s : RetentionRun, s.deletions.map Prod.fst = ["b"] ∧
    ∀ x ∈ s.deletions, x.2 = false := by
  have hrun : (run (guarded step inTime) threeHours [.patch 0 "a" true, .load 0 "base", .dump 0,
      .begin, .read "a", .read "b", .read "c", .listed, .look false, .reclaimed false,
      .look true]).isSome := by decide
  obtain ⟨s, hs⟩ := Option.isSome_iff_exists.1 hrun
  refine ⟨s, ?_, kept_spared threeHours.parse threeHours.file (fun _ => none) true ⟨_, hs⟩⟩
  obtain rfl := Option.some.inj hs
  rfl

/-- The pass awaits `reclaim` for the oldest hour when that is marked, and deletes it. -/
theorem marked_while_reclaiming : ∃ s : RetentionRun, Reachable step threeHours s ∧
    s.deletions = [("a", true)] := by
  have hrun : (run step threeHours [.begin, .read "a", .read "b", .read "c", .listed, .look false,
      .patch 0 "a" true, .load 0 "base", .dump 0, .reclaimed false]).isSome := by decide
  obtain ⟨s, hs⟩ := Option.isSome_iff_exists.1 hrun
  refine ⟨s, ⟨_, hs⟩, ?_⟩
  obtain rfl := Option.some.inj hs
  rfl

end RetentionRun

end Mtrtk
