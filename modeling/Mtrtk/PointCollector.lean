import Mathlib.Data.List.Nodup
import Mtrtk.PointAverage
import Mtrtk.Run

/-!
# Collecting a point

`rover/points.py` : `PointCollector.start`, `cancel`, `_skip`, `on_epoch` and `_finish`, called in
any order by any number of tasks. `start` awaits the open session, and a collection that has its
epochs awaits the save; everything else is done at once. A save that fails may have stored the point
all the same. What is not here is a task that is cancelled in the save.

A successful start has a number, and `handled` and `accepted` are the epochs that came to `on_epoch`
since, and those of them that were accepted; the source keeps none of the three.

A point that is stored is `Sound` : it is what its epochs make it, the coordinate their mean, with
nothing left of an earlier collection. A collection that was cancelled
stores none, as the state is `collecting` from its start to its save, and a start finds that out
both before and after its await (`collected_points`).
-/

namespace Mtrtk

namespace PointCollector

/-- `ABORT_SKIP_FACTOR`. -/
def abortSkipFactor : ℕ := 5

/-- `MAX_EPOCHS`. -/
def maxEpochs : ℤ := 3600

inductive CollectState
  | idle | collecting | done | aborted
  deriving DecidableEq

inductive Reason
  | cancelled
  | gaveUp (skipped : ℕ) (fixedOnly : Bool)
  | saveFailed
  deriving DecidableEq

def Reason.text : Reason → String
  | .cancelled => "cancelled"
  | .gaveUp skipped fixedOnly =>
    let wanted := if fixedOnly then "an RTK fixed solution" else "a 3D fix"
    s!"gave up after {skipped} epochs without {wanted}"
  | .saveFailed => "save failed"

structure CollectStatus where
  state : CollectState := .idle
  name : Option Str := none
  target : ℕ := 0
  accepted : ℕ := 0
  skipped : ℕ := 0
  sdN : Option ℚ := none
  sdE : Option ℚ := none
  sdU : Option ℚ := none
  meanLlh : Option Vec := none
  pointId : Option ℕ := none
  reason : Option Reason := none

structure Point where
  sessionId : Option ℕ
  name : Str
  code : Option String
  note : Option String
  tsUtc : ℤ
  llh : Vec
  hmslM : Option ℚ
  nEpochs : ℕ
  sdN : ℚ
  sdE : ℚ
  sdU : ℚ
  fixType : ℕ
  carrSoln : ℤ
  hAccM : Option ℚ
  vAccM : Option ℚ

/-- What is published. -/
inductive Message
  | progress (status : CollectStatus)
  | saved (id : ℕ) (point : Point)

/-- The arguments of `start`. -/
structure Request where
  name : Str
  code : Option String := none
  note : Option String := none
  epochs : Option ℤ := none
  fixedOnly : Option Bool := none

/-- A point that is saved or about to be, with the collection it is of : the number of its start,
its target, the epochs handled since and those accepted. -/
structure Save where
  point : Point
  start : ℕ
  target : ℕ
  fixedOnly : Bool
  handled : List ReceiverState
  accepted : List ReceiverState

/-- The arguments of `PointCollector` a collection depends on, and the conversions. -/
structure Setup where
  geo : Geo
  defaultEpochs : ℤ
  defaultFixedOnly : Bool

structure State where
  status : CollectStatus := {}
  saving : Bool := false
  averages : Averages
  /-- The starts that await the open session, each with its target. -/
  starting : ℕ → Option (Request × ℕ) := fun _ => none
  /-- What awaits its save. -/
  save : Option Save := none
  published : List Message := []
  stored : List Save := []
  starts : ℕ := 0
  handled : List ReceiverState := []
  accepted : List ReceiverState := []
  /-- The starts whose collection was cancelled. -/
  cancelled : List ℕ := []

inductive Event
  | start (t : ℕ) (request : Request)
  /-- `sessions.current()` returns to a start. -/
  | session (t : ℕ) (id : Option ℕ)
  /-- It raises. -/
  | noSession (t : ℕ)
  | cancel
  /-- `on_epoch`, with the time of the host. -/
  | epoch (state : ReceiverState) (now : ℤ)
  /-- `points.add` returns. -/
  | saved (id : ℕ)
  /-- It raises, with the point stored or not. -/
  | saveFails (stored : Bool)

/-- Why `start` raises. -/
inductive StartError
  | collecting
  | noName
  | badEpochs (target : ℤ)
  deriving DecidableEq

def StartError.text : StartError → String
  | .collecting => "already collecting a point; cancel it first"
  | .noName => "a point needs a name"
  | .badEpochs target => s!"epochs must be 1-{maxEpochs}, not {target}"

namespace State

variable (setup : Setup) (s : State)

def init (setup : Setup) : State := { averages := { fixedOnly := setup.defaultFixedOnly } }

/-- `_publish`. -/
def publish : State := { s with published := s.published ++ [.progress s.status] }

/-- The checks of `start`, and the name and the target it goes on with. -/
def startCheck (request : Request) : Except StartError (Str × ℕ) :=
  if s.status.state = .collecting then .error .collecting
  else if strip request.name = [] then .error .noName
  else
    let target := request.epochs.getD setup.defaultEpochs
    if 1 ≤ target ∧ target ≤ maxEpochs then .ok (strip request.name, target.toNat)
    else .error (.badEpochs target)

/-- `start`, up to its await. -/
def onStart (t : ℕ) (request : Request) : State :=
  match s.startCheck setup request with
  | .ok (name, target) =>
    { s with starting := Function.update s.starting t (some ({ request with name }, target)) }
  | .error _ => s

/-- `start`, from its await on. -/
def onSession (t : ℕ) (session : Option ℕ) : Option State :=
  (s.starting t).map fun (request, target) =>
    let s := { s with starting := Function.update s.starting t none }
    if s.status.state = .collecting then s
    else
      { s with
        averages :=
          { sessionId := session, code := request.code, note := request.note,
            fixedOnly := request.fixedOnly.getD setup.defaultFixedOnly }
        status := { state := .collecting, name := request.name, target }
        starts := s.starts + 1
        handled := []
        accepted := [] }.publish

def onCancel : State :=
  if s.status.state = .collecting ∧ s.saving = false then
    { s with
      status := { s.status with state := .aborted, reason := some .cancelled }
      cancelled := s.cancelled ++ [s.starts] }.publish
  else s

/-- `_skip`. -/
def skip : State :=
  let skipped := s.status.skipped + 1
  let status : CollectStatus := { s.status with skipped }
  if abortSkipFactor * s.status.target ≤ skipped then
    { s with
      status := { status with
        state := .aborted, reason := some (.gaveUp skipped s.averages.fixedOnly) } }.publish
  else { s with status }.publish

/-- The `Point` of `_finish`. -/
def point (last : ReceiverState) (llh : Vec) (now : ℤ) : Point where
  sessionId := s.averages.sessionId
  name := (s.status.name.filter (· ≠ [])).getD "point".toList
  code := s.averages.code
  note := s.averages.note
  tsUtc := last.utc.getD now
  llh := llh
  hmslM := mean s.averages.hmsl
  nEpochs := s.status.accepted
  sdN := s.status.sdN.getD 0
  sdE := s.status.sdE.getD 0
  sdU := s.status.sdU.getD 0
  fixType := s.averages.fixType
  carrSoln := s.averages.carrSoln
  hAccM := s.averages.hAcc
  vAccM := s.averages.vAcc

/-- `_finish`, up to its await. -/
def finish (last : ReceiverState) (llh : Vec) (now : ℤ) : State :=
  { s with
    saving := true
    save := some
      { point := s.point last llh now, start := s.starts, target := s.status.target,
        fixedOnly := s.averages.fixedOnly, handled := s.handled, accepted := s.accepted } }

/-- `on_epoch` with an epoch that is usable. -/
def accept (e : ReceiverState) (llh : Vec) (now : ℤ) : State :=
  let averages := s.averages.accept setup.geo e llh
  let status : CollectStatus := { s.status with
    accepted := s.status.accepted + 1
    sdN := some (sd setup.geo averages.n)
    sdE := some (sd setup.geo averages.e)
    sdU := some (sd setup.geo averages.u)
    meanLlh := some (averages.meanLlh setup.geo) }
  let s := { s with averages, status, accepted := s.accepted ++ [e] }
  if status.target ≤ status.accepted then s.finish e (averages.meanLlh setup.geo) now
  else s.publish

/-- `on_epoch`. -/
def onEpoch (e : ReceiverState) (now : ℤ) : State :=
  let s := { s with handled := s.handled ++ [e] }
  if s.status.state ≠ .collecting ∨ s.saving = true then s
  else
    match s.averages.usable e, e.llh with
    | true, some llh => s.accept setup e llh now
    | _, _ => s.skip

/-- `_finish` after its await. The status it writes is the one it began with. -/
def onSaved (id : ℕ) : Option State :=
  s.save.map fun save =>
    let s := { s with saving := false, save := none, stored := s.stored ++ [save] }
    let s :=
      if s.starts = save.start then
        { s with status := { s.status with state := .done, pointId := some id } }
      else s
    let s := s.publish
    { s with published := s.published ++ [.saved id save.point] }

def onSaveFails (stored : Bool) : Option State :=
  s.save.map fun save =>
    let s := { s with
      saving := false
      save := none
      stored := if stored then s.stored ++ [save] else s.stored }
    let s :=
      if s.starts = save.start then
        { s with status := { s.status with state := .aborted, reason := some .saveFailed } }
      else s
    s.publish

def step (setup : Setup) (s : State) : Event → Option State
  | .start t request => if (s.starting t).isNone then some (s.onStart setup t request) else none
  | .session t id => s.onSession setup t id
  | .noSession t =>
    if (s.starting t).isSome then
      some { s with starting := Function.update s.starting t none }
    else none
  | .cancel => some s.onCancel
  | .epoch e now => some (s.onEpoch setup e now)
  | .saved id => s.onSaved id
  | .saveFails stored => s.onSaveFails stored

end State

/-! ## What holds -/

/-- A point is what its epochs make it, and they are as many as were asked for. -/
structure Save.Sound (geo : Geo) (x : Save) : Prop where
  nEpochs : x.point.nEpochs = x.target
  length : x.accepted.length = x.target
  since : x.accepted.Sublist x.handled
  fits : ∀ e ∈ x.accepted, e.fits x.fixedOnly = true
  apart : x.accepted.IsChain fun last e => ReceiverState.repeats last e = false
  /-- The coordinate is the mean of theirs, and the deviations are those of theirs. -/
  llh : x.point.llh = meanPosition geo x.accepted
  sdE : x.point.sdE = sd geo ((enus geo x.accepted).map (·.1))
  sdN : x.point.sdN = sd geo ((enus geo x.accepted).map (·.2.1))
  sdU : x.point.sdU = sd geo ((enus geo x.accepted).map (·.2.2))
  tsUtc : ∀ last ∈ x.accepted.getLast?, ∀ utc ∈ last.utc, x.point.tsUtc = utc
  carrSoln : (∃ e ∈ x.accepted, e.carrSoln = x.point.carrSoln) ∧
    ∀ e ∈ x.accepted, x.point.carrSoln ≤ e.carrSoln
  fixType : (∃ e ∈ x.accepted, e.fixType = x.point.fixType) ∧
    ∀ e ∈ x.accepted, fixRank x.point.fixType ≤ fixRank e.fixType
  hAccM : x.point.hAccM = (x.accepted.filterMap (·.hAccM)).max?
  vAccM : x.point.vAccM = (x.accepted.filterMap (·.vAccM)).max?
  hmslM : x.point.hmslM = mean (x.accepted.filterMap (·.hmslM))

/-- The collection was given up by itself. -/
def State.GaveUp (s : State) : Prop :=
  s.status.state = .aborted ∧
    s.status.reason = some (.gaveUp s.status.skipped s.averages.fixedOnly)

structure Inv (setup : Setup) (s : State) : Prop where
  averages : s.averages.Collected setup.geo s.accepted
  count : s.status.accepted = s.accepted.length
  since : s.accepted.Sublist s.handled
  pending : ∀ t x, s.starting t = some x → 1 ≤ x.2
  room : s.status.state = .collecting → s.saving = false → s.status.accepted < s.status.target
  target : s.status.state ≠ .idle → 1 ≤ s.status.target
  skipped : s.status.skipped ≤ abortSkipFactor * s.status.target
  gaveUp : s.status.state ≠ .idle →
    (s.GaveUp ↔ s.status.skipped = abortSkipFactor * s.status.target)
  saving : s.saving = s.save.isSome
  save : ∀ x, s.save = some x →
    x.Sound setup.geo ∧ x.start = s.starts ∧ s.status.state = .collecting
  stored : ∀ x ∈ s.stored, x.Sound setup.geo ∧ x.start ≤ s.starts ∧
    (x.start = s.starts → s.status.state ≠ .collecting)
  once : (s.stored.map Save.start).Nodup
  cancelled : ∀ i ∈ s.cancelled, i ≤ s.starts ∧ (i = s.starts → s.status.state ≠ .collecting) ∧
    ∀ x ∈ s.stored, x.start ≠ i

variable {setup : Setup} {s s' : State} {x : Save} {e : ReceiverState} {llh : Vec} {now : ℤ}

theorem Inv.published (h : Inv setup s) (published : List Message) :
    Inv setup { s with published := published } :=
  ⟨h.averages, h.count, h.since, h.pending, h.room, h.target, h.skipped, h.gaveUp, h.saving,
    h.save, h.stored, h.once, h.cancelled⟩

theorem Inv.publish (h : Inv setup s) : Inv setup s.publish := h.published _

theorem Inv.starting (h : Inv setup s) {starting : ℕ → Option (Request × ℕ)}
    (hpending : ∀ t x, starting t = some x → 1 ≤ x.2) :
    Inv setup { s with starting := starting } :=
  ⟨h.averages, h.count, h.since, hpending, h.room, h.target, h.skipped, h.gaveUp, h.saving,
    h.save, h.stored, h.once, h.cancelled⟩

theorem Inv.handled (h : Inv setup s) (e : ReceiverState) :
    Inv setup { s with handled := s.handled ++ [e] } :=
  ⟨h.averages, h.count, h.since.trans (List.sublist_append_left _ _), h.pending, h.room, h.target,
    h.skipped, h.gaveUp, h.saving, h.save, h.stored, h.once, h.cancelled⟩

theorem Inv.save_none (h : Inv setup s) (hsaving : s.saving = false) : s.save = none := by
  simpa [hsaving] using h.saving.symm

/-- While a point is collected, nothing of its start is stored. -/
theorem Inv.start_ne (h : Inv setup s) (hstate : s.status.state = .collecting)
    (hx : x ∈ s.stored) : x.start ≠ s.starts :=
  fun hstart => (h.stored x hx).2.2 hstart hstate

theorem Inv.skipped_lt (h : Inv setup s) (hstate : s.status.state = .collecting) :
    s.status.skipped < abortSkipFactor * s.status.target := by
  refine lt_of_le_of_ne h.skipped fun heq => ?_
  cases hstate.symm.trans ((h.gaveUp (by simp [hstate])).2 heq).1

theorem le_of_startCheck {request : Request} {name : Str} {target : ℕ}
    (h : s.startCheck setup request = .ok (name, target)) : 1 ≤ target := by
  unfold State.startCheck at h
  split at h
  next => cases h
  next =>
    split at h
    next => cases h
    next =>
      simp only at h
      split at h
      next hrange =>
        obtain ⟨-, rfl⟩ := Prod.mk.inj (Except.ok.inj h)
        have := hrange.1
        omega
      next => cases h

theorem Inv.onStart (h : Inv setup s) (t : ℕ) (request : Request) :
    Inv setup (s.onStart setup t request) := by
  unfold State.onStart
  split
  next name target hcheck =>
    refine h.starting fun u x hx => ?_
    by_cases hut : u = t
    · subst hut
      rw [Function.update_self] at hx
      obtain rfl := Option.some.inj hx
      exact le_of_startCheck hcheck
    · exact h.pending u x (by simpa [hut] using hx)
  next => exact h

theorem Inv.withdraw (h : Inv setup s) (t : ℕ) :
    Inv setup { s with starting := Function.update s.starting t none } := by
  refine h.starting fun u x hx => ?_
  by_cases hut : u = t
  · simp [hut] at hx
  · exact h.pending u x (by simpa [hut] using hx)

/-- A start begins a collection with nothing collected. -/
theorem Inv.onSession (h : Inv setup s) {t : ℕ} {id : Option ℕ}
    (hs : s.onSession setup t id = some s') : Inv setup s' := by
  obtain ⟨⟨request, target⟩, hx, rfl⟩ := Option.map_eq_some_iff.1 hs
  have hpending := h.withdraw t
  simp only
  split
  next => exact hpending
  next hstate =>
    have hsave : s.save = none := by
      by_contra hne
      obtain ⟨x, hx⟩ := Option.ne_none_iff_exists'.1 hne
      exact hstate (h.save x hx).2.2
    have htarget : 1 ≤ target := h.pending t _ hx
    refine Inv.publish ⟨.nil .., rfl, List.Sublist.refl _, hpending.pending, fun _ _ => htarget,
      fun _ => htarget, Nat.zero_le _, fun _ => ⟨fun hgave => ?_, fun hskipped => ?_⟩, h.saving,
      fun x hx => ?_, fun x hx => ?_, h.once, fun i hi => ?_⟩
    · cases hgave.1
    · exact absurd hskipped (Nat.ne_of_lt (Nat.mul_pos (by decide) htarget))
    · cases hsave.symm.trans hx
    · obtain ⟨hsound, hle, -⟩ := h.stored x hx
      exact ⟨hsound, Nat.le_succ_of_le hle,
        fun hstart => absurd hstart (Nat.ne_of_lt (Nat.lt_succ_of_le hle))⟩
    · obtain ⟨hle, -, hnone⟩ := h.cancelled i hi
      exact ⟨Nat.le_succ_of_le hle,
        fun hstart => absurd hstart (Nat.ne_of_lt (Nat.lt_succ_of_le hle)), hnone⟩

theorem Inv.onCancel (h : Inv setup s) : Inv setup s.onCancel := by
  unfold State.onCancel
  split
  next hstate =>
    obtain ⟨hstate, hsaving⟩ := hstate
    have hsave := h.save_none hsaving
    refine Inv.publish ⟨h.averages, h.count, h.since, h.pending, fun hnot => ?_,
      fun _ => h.target (by simp [hstate]), h.skipped,
      fun _ => ⟨fun hgave => ?_, fun hskipped => ?_⟩, h.saving, fun x hx => ?_, fun x hx => ?_,
      h.once, fun i hi => ?_⟩
    · cases hnot
    · cases hgave.2
    · exact absurd hskipped (h.skipped_lt hstate).ne
    · cases hsave.symm.trans hx
    · obtain ⟨hsound, hle, -⟩ := h.stored x hx
      exact ⟨hsound, hle, fun _ => by simp⟩
    · rcases List.mem_append.1 hi with hi | hi
      · obtain ⟨hle, -, hnone⟩ := h.cancelled i hi
        exact ⟨hle, fun _ => by simp, hnone⟩
      · rw [List.mem_singleton.1 hi]
        exact ⟨le_rfl, fun _ => by simp, fun x hx => h.start_ne hstate hx⟩
  next => exact h

theorem Inv.skip (h : Inv setup s) (hstate : s.status.state = .collecting)
    (hsaving : s.saving = false) : Inv setup s.skip := by
  have hlt := h.skipped_lt hstate
  have hsave := h.save_none hsaving
  simp only [State.skip]
  split
  next hlimit =>
    refine Inv.publish ⟨h.averages, h.count, h.since, h.pending, fun hnot => ?_,
      fun _ => h.target (by simp [hstate]), hlt, fun _ => ⟨fun _ => ?_, fun _ => ⟨rfl, rfl⟩⟩,
      h.saving, fun x hx => ?_, fun x hx => ?_, h.once, fun i hi => ?_⟩
    · cases hnot
    · exact le_antisymm hlt hlimit
    · cases hsave.symm.trans hx
    · obtain ⟨hsound, hle, -⟩ := h.stored x hx
      exact ⟨hsound, hle, fun _ => by simp⟩
    · obtain ⟨hle, -, hnone⟩ := h.cancelled i hi
      exact ⟨hle, fun _ => by simp, hnone⟩
  next hlimit =>
    refine Inv.publish ⟨h.averages, h.count, h.since, h.pending, h.room, h.target, hlt,
      fun _ => ⟨fun hgave => ?_, fun hskipped => ?_⟩, h.saving, h.save, h.stored, h.once,
      h.cancelled⟩
    · cases hstate.symm.trans hgave.1
    · exact absurd hskipped.ge hlimit

theorem ne_nil_of_getLast? {epochs : List ReceiverState} (h : epochs.getLast? = some e) :
    epochs ≠ [] := by
  rintro rfl
  cases h

/-- The epochs a point is made of make it. -/
theorem sound_of_collected {geo : Geo} (h : s.averages.Collected geo s.accepted)
    (hcount : s.status.accepted = s.accepted.length) (hsince : s.accepted.Sublist s.handled)
    (htarget : s.status.accepted = s.status.target) (hlast : s.accepted.getLast? = some e)
    (hllh : llh = s.averages.meanLlh geo) (hsdN : s.status.sdN = some (sd geo s.averages.n))
    (hsdE : s.status.sdE = some (sd geo s.averages.e))
    (hsdU : s.status.sdU = some (sd geo s.averages.u)) :
    Save.Sound geo
      { point := s.point e llh now, start := s.starts, target := s.status.target,
        fixedOnly := s.averages.fixedOnly, handled := s.handled, accepted := s.accepted } where
  nEpochs := htarget
  length := hcount.symm.trans htarget
  since := hsince
  fits := h.fits
  apart := h.apart
  llh := hllh.trans (h.meanLlh_eq (ne_nil_of_getLast? hlast))
  sdE := by rw [State.point, hsdE, ← h.e]; rfl
  sdN := by rw [State.point, hsdN, ← h.n]; rfl
  sdU := by rw [State.point, hsdU, ← h.u]; rfl
  tsUtc := fun last hmem utc hutc => by
    obtain rfl : e = last := Option.some.inj (hlast.symm.trans hmem)
    rw [State.point, Option.mem_def.1 hutc]
    rfl
  carrSoln := h.carrSoln (ne_nil_of_getLast? hlast)
  fixType := h.fixType (ne_nil_of_getLast? hlast)
  hAccM := h.hAcc
  vAccM := h.vAcc
  hmslM := congrArg mean h.hmsl

/-- An epoch is accepted, and the last one leads to the save. -/
theorem Inv.accept (h : Inv setup s) (hstate : s.status.state = .collecting)
    (hsaving : s.saving = false) (husable : s.averages.usable e = true) (hllh : e.llh = some llh)
    (hsince : (s.accepted ++ [e]).Sublist s.handled) : Inv setup (s.accept setup e llh now) := by
  have hroom := h.room hstate hsaving
  have hsave := h.save_none hsaving
  have hcollected : (s.averages.accept setup.geo e llh).Collected setup.geo (s.accepted ++ [e]) :=
    h.averages.accept husable hllh
  have hcount : s.status.accepted + 1 = (s.accepted ++ [e]).length := by
    rw [h.count, List.length_append, List.length_singleton]
  have hne := (h.skipped_lt hstate).ne
  simp only [State.accept]
  split
  next hfull =>
    have hfull : s.status.target ≤ s.status.accepted + 1 := hfull
    refine ⟨hcollected, hcount, hsince, h.pending, fun _ hnot => ?_, h.target, h.skipped,
      fun _ => ⟨fun hgave => ?_, fun hskipped => absurd hskipped hne⟩, rfl, fun x hx => ?_,
      h.stored, h.once, h.cancelled⟩
    · cases hnot
    · cases hstate.symm.trans hgave.1
    · obtain rfl := Option.some.inj hx
      have htarget := le_antisymm (Nat.succ_le_of_lt hroom) hfull
      exact ⟨sound_of_collected hcollected hcount hsince htarget (by simp) rfl rfl rfl rfl, rfl,
        hstate⟩
  next hopen =>
    refine Inv.publish ⟨hcollected, hcount, hsince, h.pending, fun _ _ => lt_of_not_ge hopen,
      h.target, h.skipped, fun _ => ⟨fun hgave => ?_, fun hskipped => absurd hskipped hne⟩,
      h.saving, fun x hx => ?_, h.stored, h.once, h.cancelled⟩
    · cases hstate.symm.trans hgave.1
    · cases hsave.symm.trans hx

theorem Inv.onEpoch (h : Inv setup s) (e : ReceiverState) (now : ℤ) :
    Inv setup (s.onEpoch setup e now) := by
  have hhandled := h.handled e
  simp only [State.onEpoch]
  split
  next => exact hhandled
  next hstate =>
    obtain ⟨hstate, hsaving⟩ : s.status.state = .collecting ∧ s.saving = false := by
      simpa using hstate
    split
    next llh husable hllh =>
      exact hhandled.accept hstate hsaving husable hllh (h.since.append (List.Sublist.refl _))
    next => exact hhandled.skip hstate hsaving

/-- A save is over : its point is stored or not, and the collection is done or aborted. -/
theorem Inv.over (h : Inv setup s) (hx : s.save = some x) (stored : List Save)
    (status : CollectStatus)
    (hstored : stored = s.stored ∨ stored = s.stored ++ [x])
    (hstatus : status.accepted = s.status.accepted ∧ status.skipped = s.status.skipped ∧
      status.target = s.status.target)
    (hstate : status.state = .done ∨
      status.state = .aborted ∧ status.reason = some .saveFailed) :
    Inv setup { s with saving := false, save := none, stored := stored, status := status } := by
  obtain ⟨hsound, hstart, hcollecting⟩ := h.save x hx
  obtain ⟨haccepted, hskipped, htarget⟩ := hstatus
  have hnot : status.state ≠ .collecting := by
    rcases hstate with hstate | ⟨hstate, -⟩ <;> simp [hstate]
  have hmem : ∀ y ∈ stored, y ∈ s.stored ∨ y = x := by
    rcases hstored with rfl | rfl
    · exact fun y hy => Or.inl hy
    · simp
  refine ⟨h.averages, haccepted.trans h.count, h.since, h.pending, fun hs => absurd hs hnot,
    fun _ => ?_, ?_, fun _ => ⟨fun hgave => ?_, fun heq => ?_⟩, rfl, fun y hy => ?_,
    fun y hy => ?_, ?_, fun i hi => ?_⟩
  · exact htarget.symm ▸ h.target (by simp [hcollecting])
  · simpa [hskipped, htarget] using h.skipped
  · rcases hstate with hstate | ⟨-, hreason⟩
    · cases hstate.symm.trans hgave.1
    · cases hreason.symm.trans hgave.2
  · exact absurd (by simpa [hskipped, htarget] using heq) (h.skipped_lt hcollecting).ne
  · cases hy
  · rcases hmem y hy with hy | rfl
    · obtain ⟨hsound, hle, -⟩ := h.stored y hy
      exact ⟨hsound, hle, fun _ => hnot⟩
    · exact ⟨hsound, hstart.le, fun _ => hnot⟩
  · rcases hstored with rfl | rfl
    · exact h.once
    · rw [List.map_append, List.map_singleton]
      refine h.once.append (List.nodup_singleton _) fun i hi hi' => ?_
      obtain ⟨y, hy, rfl⟩ := List.mem_map.1 hi
      exact h.start_ne hcollecting hy ((List.mem_singleton.1 hi').trans hstart)
  · obtain ⟨hle, hlater, hnone⟩ := h.cancelled i hi
    refine ⟨hle, fun _ => hnot, fun y hy => ?_⟩
    rcases hmem y hy with hy | rfl
    · exact hnone y hy
    · exact fun hyi => hlater (hyi.symm.trans hstart) hcollecting

theorem Inv.onSaved (h : Inv setup s) {id : ℕ} (hs : s.onSaved id = some s') : Inv setup s' := by
  obtain ⟨x, hx, rfl⟩ := Option.map_eq_some_iff.1 hs
  have hstart : s.starts = x.start := (h.save x hx).2.1.symm
  simp only [if_pos hstart]
  have hover := h.over hx (s.stored ++ [x]) { s.status with state := .done, pointId := some id }
    (Or.inr rfl) ⟨rfl, rfl, rfl⟩ (Or.inl rfl)
  exact hover.publish.published _

theorem Inv.onSaveFails (h : Inv setup s) {stored : Bool} (hs : s.onSaveFails stored = some s') :
    Inv setup s' := by
  obtain ⟨x, hx, rfl⟩ := Option.map_eq_some_iff.1 hs
  have hstart : s.starts = x.start := (h.save x hx).2.1.symm
  simp only [if_pos hstart]
  refine (h.over hx (if stored then s.stored ++ [x] else s.stored)
    { s.status with state := .aborted, reason := some .saveFailed } ?_ ⟨rfl, rfl, rfl⟩
    (Or.inr ⟨rfl, rfl⟩)).publish
  cases stored
  · exact Or.inl rfl
  · exact Or.inr rfl

theorem Inv.step {e : Event} (h : Inv setup s) (hs : s.step setup e = some s') : Inv setup s' := by
  cases e with
  | start t request =>
    obtain ⟨-, heq⟩ := Option.ite_none_right_eq_some.1 hs
    obtain rfl := Option.some.inj heq
    exact h.onStart t request
  | session t id => exact h.onSession hs
  | noSession t =>
    obtain ⟨-, heq⟩ := Option.ite_none_right_eq_some.1 hs
    obtain rfl := Option.some.inj heq
    exact h.withdraw t
  | cancel =>
    obtain rfl := Option.some.inj hs
    exact h.onCancel
  | epoch e now =>
    obtain rfl := Option.some.inj hs
    exact h.onEpoch e now
  | saved id => exact h.onSaved hs
  | saveFails stored => exact h.onSaveFails hs

theorem inv_of_reachable (h : Reachable (State.step setup) (State.init setup) s) : Inv setup s := by
  refine h.invariant (Inv setup) ?_ fun _ _ _ _ hs he => hs.step he
  exact ⟨.nil .., rfl, List.Sublist.refl _, by simp [State.init], by simp [State.init],
    fun hidle => absurd rfl hidle, Nat.zero_le _, fun hidle => absurd rfl hidle, rfl,
    by simp [State.init], by simp [State.init], by simp [State.init], by simp [State.init]⟩

/-! ## Cancelling -/

theorem onEpoch_cancelled (e : ReceiverState) (now : ℤ) :
    (s.onEpoch setup e now).cancelled = s.cancelled := by
  simp only [State.onEpoch]
  split
  next => rfl
  next =>
    split
    next =>
      simp only [State.accept]
      split <;> rfl
    next =>
      simp only [State.skip]
      split <;> rfl

theorem step_cancelled {e : Event} (hs : s.step setup e = some s') :
    s.cancelled ⊆ s'.cancelled := by
  cases e with
  | start t request =>
    obtain ⟨-, heq⟩ := Option.ite_none_right_eq_some.1 hs
    obtain rfl := Option.some.inj heq
    unfold State.onStart
    split <;> exact List.Subset.refl _
  | session t id =>
    obtain ⟨x, -, rfl⟩ := Option.map_eq_some_iff.1 hs
    simp only
    split <;> exact List.Subset.refl _
  | noSession t =>
    obtain ⟨-, heq⟩ := Option.ite_none_right_eq_some.1 hs
    obtain rfl := Option.some.inj heq
    exact List.Subset.refl _
  | cancel =>
    obtain rfl := Option.some.inj hs
    unfold State.onCancel
    split
    · exact List.subset_append_left _ _
    · exact List.Subset.refl _
  | epoch e now =>
    obtain rfl := Option.some.inj hs
    rw [onEpoch_cancelled]
    exact List.Subset.refl _
  | saved id =>
    obtain ⟨x, -, rfl⟩ := Option.map_eq_some_iff.1 hs
    simp only
    split <;> exact List.Subset.refl _
  | saveFails stored =>
    obtain ⟨x, -, rfl⟩ := Option.map_eq_some_iff.1 hs
    simp only
    split <;> exact List.Subset.refl _

theorem run_cancelled {es : List Event} (hr : run (State.step setup) s es = some s') :
    s.cancelled ⊆ s'.cancelled :=
  Reachable.invariant (fun s' => s.cancelled ⊆ s'.cancelled) ⟨es, hr⟩ (List.Subset.refl _)
    fun _ _ _ _ hsub he => List.Subset.trans hsub (step_cancelled he)

/-- What was cancelled before its save is never stored. -/
theorem not_stored_of_cancel (h : Reachable (State.step setup) (State.init setup) s)
    (hstate : s.status.state = .collecting) (hsaving : s.saving = false) {es : List Event}
    (hr : run (State.step setup) s (.cancel :: es) = some s') (hx : x ∈ s'.stored) :
    x.start ≠ s.starts := by
  have hcancel : s.starts ∈ s.onCancel.cancelled := by
    rw [State.onCancel, if_pos ⟨hstate, hsaving⟩]
    exact List.mem_append_right _ (List.mem_singleton_self _)
  have hmem : s.starts ∈ s'.cancelled := run_cancelled (s := s.onCancel) hr hcancel
  exact ((inv_of_reachable (h.later hr)).cancelled _ hmem).2.2 x hx

/-- Coordinates that are metres already. -/
def flat : Geo where
  llhToEcef := id
  ecefToEnu ref xyz := (xyz.1 - ref.1, xyz.2.1 - ref.2.1, xyz.2.2 - ref.2.2)
  ecefToLlh := id
  sqrt := id

end PointCollector

end Mtrtk
