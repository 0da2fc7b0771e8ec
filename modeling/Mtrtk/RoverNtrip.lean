import Mathlib.Data.Option.Basic
import Mathlib.Logic.Function.Basic
import Mtrtk.Run

/-!
# The NTRIP client of the rover

`daemon.py` : `_restart_ntrip`, `_start_ntrip` and `set_ntrip_url`, and of `_run_rover` its start,
its own URL and its teardown, under a supervisor that may start it again. Any number of tasks set
URLs. A party goes on when what it awaits is done (`resume`), or is cancelled there (`cancel`); the
lock goes to any task that waits for it.

A client is the task of `_start_ntrip`. It is live until it is done, which it may be by itself or
some time after it was cancelled. A `gather` waits for what it gathers even where its caller is
cancelled, so a caller that awaits a client goes on only when that client is done, with the
exception or without.

`Inv` says where a live client can be : in `_ntrip_task`, or taken by the teardown. There is no
second one, as a call starts a client when the one it found is done, under the lock and for the
rover it found (`one_client`). What a URL reads as, and whether a driver takes corrections, are
parameters.
-/

namespace Mtrtk

namespace RoverNtrip

/-- Who calls `_restart_ntrip` : `_run_rover`, or a task that sets a URL. -/
inductive Caller
  | rover
  | api (t : ℕ)
  deriving DecidableEq

/-- Where a call of `_restart_ntrip` is. -/
inductive CallPc (υ γ : Type)
  | idle
  | locking (url : υ)
  /-- It awaits `_note_no_corrections`. -/
  | noting
  /-- It awaits the old client, with the rover and the configuration it began with. -/
  | hangingUp (rover : ℕ) (config : γ) (old : ℕ)

/-- Where `_run_rover` is. -/
inductive RoverPc
  /-- It has not begun, or has ended : its supervisor may start it. -/
  | idle
  | calling
  /-- It awaits `_note_event` for a URL that does not parse. -/
  | noting
  /-- It awaits `stop`. -/
  | running
  /-- Its teardown awaits the client it took. -/
  | tearing (taken : ℕ)
  /-- Its teardown awaits the other tasks. -/
  | winding
  deriving DecidableEq

/-- A client task, with the rover it was started for. -/
structure Client (γ : Type) where
  rover : ℕ
  config : γ
  cancelled : Bool := false
  done : Bool := false

structure State (υ γ : Type) where
  rover : Option ℕ := none
  ntripTask : Option ℕ := none
  lock : Option Caller := none
  calls : Caller → CallPc υ γ := fun _ => .idle
  roverPc : RoverPc := .idle
  clients : ℕ → Option (Client γ) := fun _ => none
  nextClient : ℕ := 0
  nextRover : ℕ := 0

/-- How a call ends. -/
inductive Outcome
  | returned
  | valueError
  /-- RuntimeError or CancelledError. -/
  | raised

inductive Event (υ : Type)
  | call (t : ℕ) (url : υ)
  | acquire (c : Caller)
  | resume (c : Caller)
  | cancel (c : Caller)
  | clientDone (k : ℕ)
  /-- `_run_rover` begins, with `NTRIP_URL` or without. -/
  | start (url : Option υ)
  /-- It begins, and raises before its first await. -/
  | startFails
  | roverResume
  | roverCancel

variable {υ γ : Type}

/-- Whether a call has the lock. -/
def CallPc.holds : CallPc υ γ → Bool
  | .idle | .locking _ => false
  | .noting | .hangingUp _ _ _ => true

/-- Whether `_run_rover` is before its teardown. -/
def RoverPc.up : RoverPc → Bool
  | .calling | .noting | .running => true
  | .idle | .tearing _ | .winding => false

namespace State

variable (s : State υ γ)

def Live (k : ℕ) : Prop := ∃ x, s.clients k = some x ∧ x.done = false

def isDone (k : ℕ) : Bool := (s.clients k).all (·.done)

def goto (c : Caller) (pc : CallPc υ γ) : State υ γ :=
  { s with calls := Function.update s.calls c pc }

@[simp] theorem goto_self {c : Caller} {pc : CallPc υ γ} : (s.goto c pc).calls c = pc :=
  Function.update_self ..

@[simp] theorem goto_other {c d : Caller} {pc : CallPc υ γ} (h : d ≠ c) :
    (s.goto c pc).calls d = s.calls d :=
  Function.update_of_ne h ..

/-- `task.cancel()`. -/
def cancelClient (k : ℕ) : State υ γ :=
  { s with
    clients := Function.update s.clients k
      ((s.clients k).map fun x => { x with cancelled := true }) }

/-- `_start_ntrip`. -/
def startNtrip (rover : ℕ) (config : γ) : State υ γ :=
  { s with
    clients := Function.update s.clients s.nextClient (some { rover, config })
    ntripTask := some s.nextClient
    nextClient := s.nextClient + 1 }

/-- The `finally` of `_run_rover`, up to its first await. -/
def teardown : State υ γ :=
  match s.ntripTask with
  | none => { s with rover := none, roverPc := .winding }
  | some k => { s with rover := none, ntripTask := none, roverPc := .tearing k }.cancelClient k

/-- A call is over, and its caller goes on. -/
def ended (c : Caller) (outcome : Outcome) : State υ γ :=
  match c, outcome with
  | .api t, _ => s.goto (.api t) .idle
  | .rover, .returned => { s.goto .rover .idle with roverPc := .running }
  | .rover, .valueError => { s.goto .rover .idle with roverPc := .noting }
  | .rover, .raised => (s.goto .rover .idle).teardown

/-- The lock is released, and the call is over. -/
def leave (c : Caller) (outcome : Outcome) : State υ γ := { s with lock := none }.ended c outcome

variable (fromUrl : υ → Option γ) (accepts : ℕ → Bool)

/-- `_restart_ntrip` under the lock, up to its first await. -/
def onLocked (c : Caller) (url : υ) : State υ γ :=
  match s.rover with
  | none => s.leave c .raised
  | some rover =>
    match fromUrl url with
    | none => s.leave c .valueError
    | some config =>
      if accepts rover then
        match s.ntripTask with
        | none => (s.startNtrip rover config).leave c .returned
        | some old => (s.cancelClient old).goto c (.hangingUp rover config old)
      else s.goto c .noting

/-- `_restart_ntrip` after the old client hung up. -/
def onHungUp (c : Caller) (rover : ℕ) (config : γ) (old : ℕ) : State υ γ :=
  let s := if s.ntripTask = some old then { s with ntripTask := none } else s
  if s.rover = some rover then (s.startNtrip rover config).leave c .returned
  else s.leave c .raised

def onAcquire (c : Caller) : Option (State υ γ) :=
  match s.calls c, s.lock with
  | .locking url, none => some ({ s with lock := some c }.onLocked fromUrl accepts c url)
  | _, _ => none

def onResume (c : Caller) : Option (State υ γ) :=
  match s.calls c with
  | .noting => some (s.leave c .returned)
  | .hangingUp rover config old =>
    if s.isDone old then some (s.onHungUp c rover config old) else none
  | _ => none

def onCancel (c : Caller) : Option (State υ γ) :=
  match s.calls c with
  | .locking _ => some (s.ended c .raised)
  | .noting => some (s.leave c .raised)
  | .hangingUp _ _ old => if s.isDone old then some (s.leave c .raised) else none
  | .idle => none

/-- `_run_rover` begins. -/
def onStart (url : Option υ) : State υ γ :=
  let s := { s with rover := some s.nextRover, nextRover := s.nextRover + 1 }
  match url with
  | none => { s with roverPc := .running }
  | some url => { s.goto .rover (.locking url) with roverPc := .calling }

def onRoverResume : Option (State υ γ) :=
  match s.roverPc with
  | .noting => some { s with roverPc := .running }
  | .running => some s.teardown
  | .tearing k => if s.isDone k then some { s with roverPc := .winding } else none
  | .winding => some { s with roverPc := .idle }
  | .idle | .calling => none

def onRoverCancel : Option (State υ γ) :=
  match s.roverPc with
  | .noting | .running => some s.teardown
  | .tearing k => if s.isDone k then some { s with roverPc := .idle } else none
  | .winding => some { s with roverPc := .idle }
  | .idle | .calling => none

def step (fromUrl : υ → Option γ) (accepts : ℕ → Bool) (s : State υ γ) :
    Event υ → Option (State υ γ)
  | .call t url =>
    match s.calls (.api t) with
    | .idle => some (s.goto (.api t) (.locking url))
    | _ => none
  | .acquire c => s.onAcquire fromUrl accepts c
  | .resume c => s.onResume c
  | .cancel c => s.onCancel c
  | .clientDone k =>
    (s.clients k).map fun x =>
      { s with clients := Function.update s.clients k (some { x with done := true }) }
  | .start url => if s.roverPc = .idle then some (s.onStart url) else none
  | .startFails => if s.roverPc = .idle then some s.teardown else none
  | .roverResume => s.onRoverResume
  | .roverCancel => s.onRoverCancel

end State

/-! ## What holds -/

/-- Where the rover, the callers and the live clients are. -/
structure Inv (s : State υ γ) : Prop where
  up : s.roverPc.up = s.rover.isSome
  away : s.rover = none → s.ntripTask = none
  held : ∀ c, (s.calls c).holds = true → s.lock = some c
  called : s.roverPc ≠ .calling → s.calls .rover = .idle
  known : ∀ k, s.Live k → s.ntripTask = some k ∨ s.roverPc = .tearing k
  hanging : ∀ c rover config old, s.calls c = .hangingUp rover config old →
    ∀ k, s.Live k → k = old
  owner : ∀ k x, s.clients k = some x → x.done = false →
    s.rover = some x.rover ∨ x.cancelled = true ∧ s.roverPc = .tearing k

variable {s s' : State υ γ} {c : Caller} {k old rover : ℕ} {config : γ}

theorem not_live_of_isDone (h : s.isDone k = true) : ¬s.Live k := by
  rintro ⟨x, hx, hdone⟩
  simp [State.isDone, hx, hdone] at h

@[simp] theorem live_cancelClient {j : ℕ} : (s.cancelClient k).Live j ↔ s.Live j := by
  unfold State.Live State.cancelClient
  by_cases hjk : j = k
  · subst hjk
    cases s.clients j <;> simp
  · simp [hjk]

theorem Inv.not_tearing (h : Inv s) (hrover : s.rover = some rover) (k : ℕ) :
    s.roverPc ≠ .tearing k := by
  intro hpc
  have := h.up
  simp [hpc, hrover, RoverPc.up] at this

theorem Inv.eq_of_live (h : Inv s) {j : ℕ} (hj : s.Live j) (hk : s.Live k) : j = k := by
  rcases h.known j hj with hj | hj <;> rcases h.known k hk with hk | hk
  · exact Option.some.inj (hj.symm.trans hk)
  · have hrover : s.rover = none := by simpa [hk, RoverPc.up] using h.up
    cases (h.away hrover).symm.trans hj
  · have hrover : s.rover = none := by simpa [hj, RoverPc.up] using h.up
    cases (h.away hrover).symm.trans hk
  · exact RoverPc.tearing.inj (hj.symm.trans hk)

/-- Without a rover, and once the client taken is done, no client is live. -/
theorem Inv.not_live (h : Inv s) (hrover : s.rover = none)
    (hdone : ∀ k, s.roverPc = .tearing k → s.isDone k = true) : ∀ k, ¬s.Live k := by
  intro k hk
  rcases h.known k hk with htask | hpc
  · cases (h.away hrover).symm.trans htask
  · exact not_live_of_isDone (hdone k hpc) hk

theorem Inv.calling (h : Inv s) (hcall : s.calls c ≠ .idle) :
    c = .rover → s.roverPc = .calling := by
  rintro rfl
  exact by_contra fun hpc => hcall (h.called hpc)

theorem Inv.lock (h : Inv s) (hlock : s.lock = none) : Inv { s with lock := some c } where
  up := h.up
  away := h.away
  held d hd := absurd (hlock.symm.trans (h.held d hd)) (by simp)
  called := h.called
  known := h.known
  hanging := h.hanging
  owner := h.owner

/-- The task that has the lock goes on in its call. -/
theorem Inv.goto (h : Inv s) (hlock : s.lock = some c) (hcall : s.calls c ≠ .idle)
    {pc : CallPc υ γ} (hpc : ∀ rover config old, pc = .hangingUp rover config old →
      ∀ k, s.Live k → k = old) : Inv (s.goto c pc) where
  up := h.up
  away := h.away
  held d hd := by
    by_cases hdc : d = c
    · exact hdc ▸ hlock
    · rw [State.goto_other s hdc] at hd
      exact h.held d hd
  called hne := by
    rw [State.goto_other s fun hc => hne (h.calling hcall hc.symm)]
    exact h.called hne
  known := h.known
  hanging d rover config old hd := by
    by_cases hdc : d = c
    · subst hdc
      exact hpc rover config old ((State.goto_self s).symm.trans hd)
    · rw [State.goto_other s hdc] at hd
      exact h.hanging d rover config old hd
  owner := h.owner

/-- A call begins, or is over, without the lock. -/
theorem Inv.goto_free (h : Inv s) {pc : CallPc υ γ} (hpc : pc.holds = false)
    (hc : c = .rover → pc = .idle) : Inv (s.goto c pc) where
  up := h.up
  away := h.away
  held d hd := by
    by_cases hdc : d = c
    · rw [hdc, State.goto_self, hpc] at hd
      cases hd
    · rw [State.goto_other s hdc] at hd
      exact h.held d hd
  called hne := by
    by_cases hrover : .rover = c
    · rw [← hrover, State.goto_self, hc hrover.symm]
    · rw [State.goto_other s hrover]
      exact h.called hne
  known := h.known
  hanging d rover config old hd := by
    by_cases hdc : d = c
    · rw [hdc, State.goto_self] at hd
      cases hpc.symm.trans (congrArg CallPc.holds hd)
    · rw [State.goto_other s hdc] at hd
      exact h.hanging d rover config old hd
  owner := h.owner

theorem Inv.idle (h : Inv s) : Inv (s.goto c .idle) := h.goto_free rfl fun _ => rfl

/-- A call is over, and its caller had the lock. -/
theorem Inv.unlock (h : Inv s) (hlock : s.lock = some c) :
    Inv ({ s with lock := none }.goto c .idle) where
  up := h.up
  away := h.away
  held d hd := by
    by_cases hdc : d = c
    · subst hdc
      simp [State.goto, CallPc.holds] at hd
    · rw [State.goto_other _ hdc] at hd
      exact absurd (Option.some.inj ((h.held d hd).symm.trans hlock)) hdc
  called := h.idle.called
  known := h.known
  hanging := h.idle.hanging
  owner := h.owner

theorem Inv.cancelClient (h : Inv s) : Inv (s.cancelClient k) where
  up := h.up
  away := h.away
  held := h.held
  called := h.called
  known j hj := h.known j (live_cancelClient.1 hj)
  hanging c rover config old hc j hj := h.hanging c rover config old hc j (live_cancelClient.1 hj)
  owner j x hx hdone := by
    by_cases hjk : j = k
    · subst hjk
      obtain ⟨y, hy, rfl⟩ : ∃ y, s.clients j = some y ∧ { y with cancelled := true } = x := by
        simpa [State.cancelClient] using hx
      exact (h.owner j y hy hdone).imp_right fun htorn => ⟨rfl, htorn.2⟩
    · exact h.owner j x (by simpa [State.cancelClient, hjk] using hx) hdone

/-- `_run_rover` goes on before its teardown. -/
theorem Inv.setUp (h : Inv s) (hcall : s.calls .rover = .idle) (hup : s.roverPc.up = true)
    {pc : RoverPc} (hpc : pc.up = true) : Inv { s with roverPc := pc } where
  up := hpc.trans (hup.symm.trans h.up)
  away := h.away
  held := h.held
  called _ := hcall
  known k hk := (h.known k hk).imp_right fun ht => by simp [ht, RoverPc.up] at hup
  hanging := h.hanging
  owner k x hx hdone :=
    (h.owner k x hx hdone).imp_right fun ht => by simp [ht.2, RoverPc.up] at hup

/-- No client is live, and there is no rover. -/
theorem Inv.setDown (h : Inv s) (hrover : s.rover = none) (hlive : ∀ k, ¬s.Live k)
    (hcall : s.calls .rover = .idle) {pc : RoverPc} (hpc : pc.up = false) :
    Inv { s with roverPc := pc } where
  up := by simp [hpc, hrover]
  away := h.away
  held := h.held
  called _ := hcall
  known k hk := absurd hk (hlive k)
  hanging := h.hanging
  owner k x hx hdone := absurd ⟨x, hx, hdone⟩ (hlive k)

/-- The teardown takes the client there may be, and cancels it. -/
theorem Inv.teardown (h : Inv s) (hcall : s.calls .rover = .idle)
    (hpc : ∀ k, s.roverPc ≠ .tearing k) : Inv s.teardown := by
  have hknown : ∀ k, s.Live k → s.ntripTask = some k := fun k hk =>
    (h.known k hk).resolve_right (hpc k)
  unfold State.teardown
  split
  next htask =>
    have hlive : ∀ k, ¬s.Live k := fun k hk => by cases htask.symm.trans (hknown k hk)
    exact ⟨rfl, fun _ => htask, h.held, fun _ => hcall, fun k hk => absurd hk (hlive k), h.hanging,
      fun k x hx hdone => absurd ⟨x, hx, hdone⟩ (hlive k)⟩
  next taken htask =>
    have heq : ∀ k, s.Live k → k = taken := fun k hk =>
      Option.some.inj ((hknown k hk).symm.trans htask)
    refine ⟨rfl, fun _ => rfl, h.held, fun _ => hcall, fun k hk => Or.inr ?_,
      fun c r g old hc k hk => ?_, fun k x hx hdone => Or.inr ?_⟩
    · rw [heq k (live_cancelClient.1 hk)]
      rfl
    · exact h.hanging c r g old hc k (live_cancelClient.1 hk)
    · obtain rfl := heq k (live_cancelClient.1 ⟨x, hx, hdone⟩)
      obtain ⟨y, -, rfl⟩ : ∃ y, s.clients k = some y ∧ { y with cancelled := true } = x := by
        simpa [State.cancelClient] using hx
      exact ⟨rfl, rfl⟩

theorem Inv.ended (h : Inv (s.goto c .idle)) (hpc : c = .rover → s.roverPc = .calling)
    (outcome : Outcome) : Inv (s.ended c outcome) := by
  cases c with
  | api t => cases outcome <;> exact h
  | rover =>
    have hcalling := hpc rfl
    have hcall : (s.goto .rover .idle).calls .rover = .idle := by simp [State.goto]
    have hup : (s.goto .rover .idle).roverPc.up = true := by
      simp [State.goto, hcalling, RoverPc.up]
    cases outcome with
    | returned => exact h.setUp hcall hup rfl
    | valueError => exact h.setUp hcall hup rfl
    | raised => exact h.teardown hcall fun k => by simp [State.goto, hcalling]

theorem Inv.leave (h : Inv s) (hlock : s.lock = some c) (hcall : s.calls c ≠ .idle)
    (outcome : Outcome) : Inv (s.leave c outcome) := by
  exact Inv.ended (s := { s with lock := none }) (h.unlock hlock) (h.calling hcall) outcome

theorem eq_of_live_startNtrip (hlive : ∀ k, ¬s.Live k) (hk : (s.startNtrip rover config).Live k) :
    k = s.nextClient := by
  by_contra hne
  obtain ⟨x, hx, hdone⟩ := hk
  exact hlive k ⟨x, by simpa [State.startNtrip, hne] using hx, hdone⟩

/-- A client is started while none is live. -/
theorem Inv.started (h : Inv s) (hlock : s.lock = some c) (hcall : s.calls c ≠ .idle)
    (hrover : s.rover = some rover) (hlive : ∀ k, ¬s.Live k) :
    Inv ((s.startNtrip rover config).leave c .returned) := by
  have hfree := h.unlock hlock
  refine Inv.ended (s := { s.startNtrip rover config with lock := none }) ?_ (h.calling hcall) _
  refine ⟨hfree.up, fun hnone => ?_, hfree.held, hfree.called, fun k hk => Or.inl ?_,
    fun d r g old hd k hk => ?_, fun k x hx hdone => Or.inl ?_⟩
  · cases hrover.symm.trans hnone
  · rw [eq_of_live_startNtrip hlive hk]
    rfl
  · cases hfree.held d (congrArg CallPc.holds hd)
  · have hx' : (s.startNtrip rover config).clients k = some x := hx
    rw [eq_of_live_startNtrip hlive ⟨x, hx, hdone⟩] at hx'
    obtain rfl : { rover, config } = x := by simpa [State.startNtrip] using hx'
    exact hrover

theorem Inv.onLocked (h : Inv s) (hlock : s.lock = some c) (hcall : s.calls c ≠ .idle)
    (fromUrl : υ → Option γ) (accepts : ℕ → Bool) (url : υ) :
    Inv (s.onLocked fromUrl accepts c url) := by
  unfold State.onLocked
  split
  next => exact h.leave hlock hcall _
  next rover hrover =>
    split
    next => exact h.leave hlock hcall _
    next config _ =>
      split
      next =>
        have hknown : ∀ k, s.Live k → s.ntripTask = some k := fun k hk =>
          (h.known k hk).resolve_right (h.not_tearing hrover k)
        split
        next htask =>
          exact h.started hlock hcall hrover fun k hk => by cases htask.symm.trans (hknown k hk)
        next old htask =>
          refine h.cancelClient.goto hlock hcall fun r g old' hpc k hk => ?_
          obtain ⟨-, -, rfl⟩ := CallPc.hangingUp.inj hpc
          exact Option.some.inj ((hknown k (live_cancelClient.1 hk)).symm.trans htask)
      next => exact h.goto hlock hcall fun _ _ _ hpc => by cases hpc

theorem Inv.onHungUp (h : Inv s) (hcall : s.calls c = .hangingUp rover config old)
    (hdone : s.isDone old = true) : Inv (s.onHungUp c rover config old) := by
  have hlive : ∀ k, ¬s.Live k := fun k hk =>
    not_live_of_isDone hdone (h.hanging c rover config old hcall k hk ▸ hk)
  have hlock : s.lock = some c := h.held c (by rw [hcall]; rfl)
  have hcall : s.calls c ≠ .idle := by simp [hcall]
  have hclear : Inv { s with ntripTask := none } :=
    ⟨h.up, fun _ => rfl, h.held, h.called, fun k hk => absurd hk (hlive k), h.hanging, h.owner⟩
  simp only [State.onHungUp]
  by_cases htask : s.ntripTask = some old
  · rw [if_pos htask]
    split
    next hrover => exact hclear.started hlock hcall hrover hlive
    next => exact hclear.leave hlock hcall _
  · rw [if_neg htask]
    split
    next hrover => exact h.started hlock hcall hrover hlive
    next => exact h.leave hlock hcall _

theorem Inv.onStart (h : Inv s) (hpc : s.roverPc = .idle) (url : Option υ) :
    Inv (s.onStart url) := by
  have hrover : s.rover = none := by simpa [hpc, RoverPc.up] using h.up
  have hlive := h.not_live hrover fun k hk => by cases hpc.symm.trans hk
  have hcall := h.called (by simp [hpc])
  have hup : Inv { s with
      rover := some s.nextRover, nextRover := s.nextRover + 1, roverPc := .running } :=
    ⟨rfl, fun hnone => (by cases hnone), h.held, fun _ => hcall, fun k hk => absurd hk (hlive k),
      h.hanging, fun k x hx hdone => absurd ⟨x, hx, hdone⟩ (hlive k)⟩
  cases url with
  | none => exact hup
  | some url =>
    refine ⟨rfl, hup.away, fun d hd => ?_, fun hne => absurd rfl hne,
      fun k hk => absurd hk (hlive k), fun _ _ _ _ _ k hk => absurd hk (hlive k),
      fun k x hx hdone => absurd ⟨x, hx, hdone⟩ (hlive k)⟩
    by_cases hd' : d = .rover
    · subst hd'
      simp [State.onStart, State.goto, CallPc.holds] at hd
    · exact h.held d (by simpa [State.onStart, State.goto, hd'] using hd)

theorem Inv.clientDone (h : Inv s) {x : Client γ} (hx : s.clients k = some x) :
    Inv { s with clients := Function.update s.clients k (some { x with done := true }) } := by
  have hsub : ∀ j y, Function.update s.clients k (some { x with done := true }) j = some y →
      y.done = false → s.clients j = some y := by
    intro j y hy hdone
    by_cases hjk : j = k
    · subst hjk
      obtain rfl : { x with done := true } = y := by simpa using hy
      cases hdone
    · simpa [hjk] using hy
  refine ⟨h.up, h.away, h.held, h.called, ?_, ?_, fun j y hy hdone => ?_⟩
  · rintro j ⟨y, hy, hdone⟩
    exact h.known j ⟨y, hsub j y hy hdone, hdone⟩
  · rintro c r g old hc j ⟨y, hy, hdone⟩
    exact h.hanging c r g old hc j ⟨y, hsub j y hy hdone, hdone⟩
  · exact h.owner j y (hsub j y hy hdone) hdone

/-- The rover is down once its teardown has the client done. -/
theorem Inv.down (h : Inv s) {pc : RoverPc} (hup : s.roverPc.up = false)
    (hdone : ∀ k, s.roverPc = .tearing k → s.isDone k = true) (hpc : pc.up = false) :
    Inv { s with roverPc := pc } := by
  have hrover : s.rover = none := by simpa [hup] using h.up.symm
  refine h.setDown hrover (h.not_live hrover hdone) (h.called fun hcalling => ?_) hpc
  simp [hcalling, RoverPc.up] at hup

theorem Inv.roverResume (h : Inv s) (hs : s.onRoverResume = some s') : Inv s' := by
  unfold State.onRoverResume at hs
  split at hs
  next hpc =>
    obtain rfl := Option.some.inj hs
    exact h.setUp (h.called (by simp [hpc])) (by rw [hpc]; rfl) rfl
  next hpc =>
    obtain rfl := Option.some.inj hs
    exact h.teardown (h.called (by simp [hpc])) fun k => by simp [hpc]
  next k hpc =>
    obtain ⟨hdone, heq⟩ := Option.ite_none_right_eq_some.1 hs
    obtain rfl := Option.some.inj heq
    refine h.down (by rw [hpc]; rfl) (fun j hj => ?_) rfl
    obtain rfl := RoverPc.tearing.inj (hpc.symm.trans hj)
    exact hdone
  next hpc =>
    obtain rfl := Option.some.inj hs
    exact h.down (by rw [hpc]; rfl) (fun k hk => by cases hpc.symm.trans hk) rfl
  next => cases hs
  next => cases hs

theorem Inv.roverCancel (h : Inv s) (hs : s.onRoverCancel = some s') : Inv s' := by
  unfold State.onRoverCancel at hs
  split at hs
  next hpc =>
    obtain rfl := Option.some.inj hs
    exact h.teardown (h.called (by simp [hpc])) fun k => by simp [hpc]
  next hpc =>
    obtain rfl := Option.some.inj hs
    exact h.teardown (h.called (by simp [hpc])) fun k => by simp [hpc]
  next k hpc =>
    obtain ⟨hdone, heq⟩ := Option.ite_none_right_eq_some.1 hs
    obtain rfl := Option.some.inj heq
    refine h.down (by rw [hpc]; rfl) (fun j hj => ?_) rfl
    obtain rfl := RoverPc.tearing.inj (hpc.symm.trans hj)
    exact hdone
  next hpc =>
    obtain rfl := Option.some.inj hs
    exact h.down (by rw [hpc]; rfl) (fun k hk => by cases hpc.symm.trans hk) rfl
  next => cases hs
  next => cases hs

theorem Inv.step {fromUrl : υ → Option γ} {accepts : ℕ → Bool} (h : Inv s) {e : Event υ}
    (hs : s.step fromUrl accepts e = some s') : Inv s' := by
  cases e with
  | call t url =>
    simp only [State.step] at hs
    split at hs
    next hidle =>
      obtain rfl := Option.some.inj hs
      exact h.goto_free rfl (by simp)
    next => cases hs
  | acquire c =>
    simp only [State.step, State.onAcquire] at hs
    split at hs
    next url hcall hlock =>
      obtain rfl := Option.some.inj hs
      exact (h.lock hlock).onLocked rfl (by simp [hcall]) fromUrl accepts url
    next => cases hs
  | resume c =>
    simp only [State.step, State.onResume] at hs
    split at hs
    next hcall =>
      obtain rfl := Option.some.inj hs
      exact h.leave (h.held c (by rw [hcall]; rfl)) (by simp [hcall]) _
    next rover config old hcall =>
      obtain ⟨hdone, heq⟩ := Option.ite_none_right_eq_some.1 hs
      obtain rfl := Option.some.inj heq
      exact h.onHungUp hcall hdone
    next => cases hs
  | cancel c =>
    simp only [State.step, State.onCancel] at hs
    split at hs
    next url hcall =>
      obtain rfl := Option.some.inj hs
      exact h.idle.ended (h.calling (by simp [hcall])) _
    next hcall =>
      obtain rfl := Option.some.inj hs
      exact h.leave (h.held c (by rw [hcall]; rfl)) (by simp [hcall]) _
    next rover config old hcall =>
      obtain ⟨hdone, heq⟩ := Option.ite_none_right_eq_some.1 hs
      obtain rfl := Option.some.inj heq
      exact h.leave (h.held c (by rw [hcall]; rfl)) (by simp [hcall]) _
    next => cases hs
  | clientDone k =>
    obtain ⟨x, hx, rfl⟩ := Option.map_eq_some_iff.1 hs
    exact h.clientDone hx
  | start url =>
    obtain ⟨hpc, heq⟩ := Option.ite_none_right_eq_some.1 hs
    obtain rfl := Option.some.inj heq
    exact h.onStart hpc url
  | startFails =>
    obtain ⟨hpc, heq⟩ := Option.ite_none_right_eq_some.1 hs
    obtain rfl := Option.some.inj heq
    exact h.teardown (h.called (by simp [hpc])) fun k => by simp [hpc]
  | roverResume => exact h.roverResume hs
  | roverCancel => exact h.roverCancel hs

theorem inv_of_reachable {fromUrl : υ → Option γ} {accepts : ℕ → Bool}
    (h : Reachable (State.step fromUrl accepts) {} s) : Inv s := by
  refine h.invariant Inv ?_ fun _ _ _ _ hs he => hs.step he
  refine ⟨rfl, fun _ => rfl, by simp [CallPc.holds], fun _ => rfl, ?_, by simp, by simp⟩
  rintro k ⟨x, hx, -⟩
  cases hx

/-- A call with a URL that does not parse ends, and leaves the clients and the rover alone. -/
theorem onAcquire_of_bad {fromUrl : υ → Option γ} {accepts : ℕ → Bool} (h : Inv s) {url : υ}
    (hcall : s.calls c = .locking url) (hurl : fromUrl url = none)
    (hs : s.onAcquire fromUrl accepts c = some s') :
    s'.calls c = .idle ∧ s'.clients = s.clients ∧ s'.ntripTask = s.ntripTask ∧
      s'.rover = s.rover := by
  simp only [State.onAcquire, hcall] at hs
  split at hs
  next url' hcall' hlock =>
    obtain rfl := CallPc.locking.inj hcall'
    obtain rfl := Option.some.inj hs
    cases c with
    | api t =>
      unfold State.onLocked
      split
      next => exact ⟨State.goto_self _, rfl, rfl, rfl⟩
      next rover hrover =>
        rw [hurl]
        exact ⟨State.goto_self _, rfl, rfl, rfl⟩
    | rover =>
      have hup := h.up
      rw [h.calling (by simp [hcall]) rfl] at hup
      obtain ⟨rover, hrover⟩ := Option.isSome_iff_exists.1 hup.symm
      unfold State.onLocked
      split
      next hnone => cases hrover.symm.trans hnone
      next =>
        rw [hurl]
        refine ⟨?_, rfl, rfl, rfl⟩
        simp [State.leave, State.ended]
  next => cases hs

/-- At most one client is live. One that is live belongs to the rover that runs, or is cancelled and
awaited by the teardown, and once the teardown has ended none is until the next rover begins. A URL
that does not parse leaves the clients and the rover alone. -/
theorem one_client {fromUrl : υ → Option γ} {accepts : ℕ → Bool}
    (h : Reachable (State.step fromUrl accepts) {} s) :
    (∀ j k, s.Live j → s.Live k → j = k) ∧
    (∀ k x, s.clients k = some x → x.done = false →
      s.rover = some x.rover ∨ x.cancelled = true ∧ s.roverPc = .tearing k) ∧
    (s.roverPc = .winding ∨ s.roverPc = .idle → ∀ k, ¬s.Live k) ∧
    ∀ c url s', s.calls c = .locking url → fromUrl url = none →
      s.step fromUrl accepts (.acquire c) = some s' →
      s'.calls c = .idle ∧ s'.clients = s.clients ∧ s'.ntripTask = s.ntripTask ∧
        s'.rover = s.rover := by
  have hinv := inv_of_reachable h
  refine ⟨fun j k hj hk => hinv.eq_of_live hj hk, hinv.owner, fun hpc => ?_,
    fun c url s' hcall hurl hs => onAcquire_of_bad hinv hcall hurl hs⟩
  have hup : s.roverPc.up = false := by
    rcases hpc with hpc | hpc <;> rw [hpc] <;> rfl
  refine hinv.not_live (by simpa [hup] using hinv.up.symm) fun k hk => ?_
  simp [hk] at hpc

/-- A URL that is not 0. -/
def parses (url : ℕ) : Option ℕ := if url = 0 then none else some url

/-- A URL is set while the rover tears down, and the rover is started again. -/
def tornRun : List (Event ℕ) :=
  [.start (some 80), .acquire .rover, .call 0 81, .acquire (.api 0), .roverResume,
    .clientDone 0, .roverResume, .resume (.api 0), .roverResume, .start (some 82),
    .acquire .rover]

/-- The second client is the only one, and a URL that does not parse leaves it alone. -/
theorem one_client_torn :
    ∃ s s' : State ℕ ℕ, run (State.step parses fun _ => true) {} (tornRun ++ [.call 0 0]) = some s ∧
      s.step parses (fun _ => true) (.acquire (.api 0)) = some s' ∧ s'.clients = s.clients ∧
      s.Live 1 ∧ ∀ k, s.Live k → k = 1 := by
  have hrun : ((run (State.step parses fun _ => true) ({} : State ℕ ℕ)
      (tornRun ++ [.call 0 0])).map fun s => (s.isDone 1, s.lock)) = some (false, none) := by decide
  obtain ⟨s, hs, heq⟩ := Option.map_eq_some_iff.1 hrun
  obtain ⟨hdone, hlock⟩ := Prod.mk.inj heq
  obtain ⟨hone, -, -, hbad⟩ := one_client ⟨_, hs⟩
  have hlive : s.Live 1 := by
    cases hx : s.clients 1 with
    | none => simp [State.isDone, hx] at hdone
    | some x => exact ⟨x, hx, by simpa [State.isDone, hx] using hdone⟩
  have hcall : s.calls (.api 0) = .locking 0 := by
    obtain ⟨t, -, hlast⟩ := Option.bind_eq_some_iff.1 ((run_append _ _ _ _).symm.trans hs)
    simp only [run, State.step] at hlast
    split at hlast
    · obtain rfl := Option.some.inj hlast
      exact State.goto_self _
    · cases hlast
  have hacquire : s.step parses (fun _ => true) (.acquire (.api 0)) =
      some ({ s with lock := some (.api 0) }.onLocked parses (fun _ => true) (.api 0) 0) := by
    rw [State.step, State.onAcquire, hcall, hlock]
  exact ⟨s, _, hs, hacquire, (hbad (.api 0) 0 _ hcall rfl hacquire).2.1, hlive,
    fun k hk => hone k 1 hk hlive⟩

end RoverNtrip

end Mtrtk
