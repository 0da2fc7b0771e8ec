import Mtrtk.Run

/-!
# Factory resets and the first apply

`core/receiver.py` : `ReceiverController` writes its profile to every layer, flash
included, as long as `_first_apply` is raised, and to RAM otherwise. `reset` raises it when
it has written a CFG-CFG wipe. `reapply` and a session's configure lower it once the
profile is written. All three hold the lock `_configuring`.

`ReceiverController.step` interleaves one session after the other with any number of
`reapply` and `reset` calls, one await at a time. A session reads the flag when it calls
`configure`, before it has the lock, and lowers it after `configure` has released the lock.
`factory_reset_remembered` : no wipe is forgotten in a run in which none is written between
these two. One that is written there can be (`factory_reset_forgotten`).
-/

namespace Mtrtk

def layersRam : ℕ := 1
def layersAll : ℕ := 7

/-- The layers of `_configure`. -/
def configureLayers (first : Bool) : ℕ := if first then layersAll else layersRam

/-- `ResetKind`. -/
inductive ResetKind
  | hot | warm | cold | factory
  deriving DecidableEq, Repr

/-- What holds the lock `_configuring`. A reset is `wiping` until its CFG-CFG is written. -/
inductive Holder
  | configure (first : Bool)
  | reapply
  | reset (wiping : Bool)
  deriving DecidableEq, Repr

/-- The layers a holder of the lock writes the profile to. -/
def Holder.layers : Holder → Option ℕ
  | .configure first => some (configureLayers first)
  | .reapply => some (configureLayers true)
  | .reset _ => none

/-- Where `_session` is : `calling` is `_configure_or_stop` with its `configure` not yet
past the lock, `returned` the same with the `configure` done and the session not yet
resumed. -/
inductive Session
  | down
  | calling (first : Bool)
  | configuring
  | returned
  | serving
  | closing
  deriving DecidableEq, Repr

/-- `ReceiverController`. `wiped` is not in the source : a CFG-CFG wipe is written after
the last configure that completed its writes. -/
structure ReceiverController where
  firstApply : Bool := true
  holder : Option Holder := none
  session : Session := .down
  wiped : Bool := false
  deriving DecidableEq, Repr

inductive ReceiverEvent
  /-- A session opens its link, with a profile to write or without. -/
  | connect (configuring : Bool)
  | configureStart
  | configureEnd (ok : Bool)
  /-- The session goes on after its configure. -/
  | resume
  /-- `stop` fires, or the link fails. -/
  | abort
  | close
  | reapplyStart
  | reapplyEnd (ok : Bool)
  | resetStart (kind : ResetKind)
  /-- The CFG-CFG is written. -/
  | wipe
  | resetEnd
  deriving DecidableEq, Repr

namespace ReceiverController

/-- `_live_link` finds a link. -/
def live (s : ReceiverController) : Bool := s.session ≠ .down

/-- Some configure holds the lock. -/
def configuring (s : ReceiverController) : Bool := (s.holder.bind Holder.layers).isSome

/-- One task runs to its next await. -/
def step (s : ReceiverController) : ReceiverEvent → Option ReceiverController
  | .connect configuring =>
    if s.session = .down then
      some { s with session := if configuring then .calling s.firstApply else .serving }
    else none
  | .configureStart =>
    match s.session, s.holder with
    | .calling first, none =>
      some { s with session := .configuring, holder := some (.configure first) }
    | _, _ => none
  | .configureEnd ok =>
    match s.session, s.holder with
    | .configuring, some (.configure _) =>
      if ok then some { s with session := .returned, holder := none, wiped := false }
      else some { s with session := .closing, holder := none }
    | _, _ => none
  | .resume =>
    if s.session = .returned then some { s with session := .serving, firstApply := false } else none
  | .abort =>
    match s.session with
    | .calling _ => some { s with session := .closing }
    | .configuring => some { s with session := .closing, holder := none }
    | .serving => some { s with session := .closing }
    | _ => none
  | .close => if s.session = .closing then some { s with session := .down } else none
  | .reapplyStart =>
    if s.holder = none ∧ s.live then some { s with holder := some .reapply } else none
  | .reapplyEnd ok =>
    if s.holder = some .reapply then
      if ok then some { s with holder := none, firstApply := false, wiped := false }
      else some { s with holder := none }
    else none
  | .resetStart kind =>
    if s.holder = none ∧ s.live then some { s with holder := some (.reset (kind = .factory)) }
    else none
  | .wipe =>
    if s.holder = some (.reset true) then
      some { s with holder := some (.reset false), firstApply := true, wiped := true }
    else none
  | .resetEnd =>
    match s.holder with
    | some (.reset _) => some { s with holder := none }
    | _ => none

/-- After a wipe, and while no configure runs, the flag is raised and the next configure to
start writes every layer. -/
def Remembers (s : ReceiverController) : Prop :=
  s.wiped = true → s.configuring = false → s.firstApply = true ∧
    ∀ e s', step s e = some s' → ∀ layers ∈ s'.holder.bind Holder.layers, layers = layersAll

/-- An event is no wipe written while a session has called `configure` without `first`
and not got the lock, or has not gone on after its configure. -/
def keepsWipe (s : ReceiverController) (e : ReceiverEvent) : Bool :=
  e ≠ .wipe ∨ (s.session ≠ .calling false ∧ s.session ≠ .returned)

/-- What a step can do. -/
inductive Effect (s : ReceiverController) : ReceiverEvent → ReceiverController → Prop
  | connect (c : Bool) (h : s.session = .down) : Effect s (.connect c)
      { s with session := if c then .calling s.firstApply else .serving }
  | start (first : Bool) (h : s.session = .calling first) : Effect s .configureStart
      { s with session := .configuring, holder := some (.configure first) }
  | written : Effect s (.configureEnd true)
      { s with session := .returned, holder := none, wiped := false }
  | resume (h : s.session = .returned) : Effect s .resume
      { s with session := .serving, firstApply := false }
  | ends (e : ReceiverEvent) (session : Session) (h : session = .closing ∨ session = .down) :
      Effect s e { s with session := session }
  | fails (e : ReceiverEvent) : Effect s e { s with session := .closing, holder := none }
  | takes (e : ReceiverEvent) (holder : Holder) (h : ∀ first, holder ≠ .configure first) :
      Effect s e { s with holder := some holder }
  | frees (e : ReceiverEvent) : Effect s e { s with holder := none }
  | reapplied : Effect s (.reapplyEnd true)
      { s with holder := none, firstApply := false, wiped := false }
  | wipe : Effect s .wipe
      { s with holder := some (.reset false), firstApply := true, wiped := true }

theorem effect_of_step {s s' : ReceiverController} {e : ReceiverEvent} (hs : s.step e = some s') :
    Effect s e s' := by
  rcases e with c | _ | ok | _ | _ | _ | _ | ok | kind | _ | _ <;> simp only [step] at hs <;>
    split at hs
  all_goals first
    | simp only [reduceCtorEq] at hs
    | skip
  · exact Option.some.inj hs ▸ .connect c ‹_›
  · exact Option.some.inj hs ▸ .start _ ‹_›
  · cases ok
    · exact Option.some.inj hs ▸ .fails _
    · exact Option.some.inj hs ▸ .written
  · exact Option.some.inj hs ▸ .resume ‹_›
  · exact Option.some.inj hs ▸ .ends _ _ (Or.inl rfl)
  · exact Option.some.inj hs ▸ .fails _
  · exact Option.some.inj hs ▸ .ends _ _ (Or.inl rfl)
  · exact Option.some.inj hs ▸ .ends _ _ (Or.inr rfl)
  · exact Option.some.inj hs ▸ .takes _ _ nofun
  · cases ok
    · exact Option.some.inj hs ▸ .frees _
    · exact Option.some.inj hs ▸ .reapplied
  · exact Option.some.inj hs ▸ .takes _ _ nofun
  · exact Option.some.inj hs ▸ .wipe
  · exact Option.some.inj hs ▸ .frees _

/-- What a wipe leaves behind until the profile is written again. -/
structure WipeInv (s : ReceiverController) : Prop where
  flag : s.wiped = true → s.firstApply = true
  calling : s.wiped = true → s.session ≠ .calling false
  returned : s.wiped = true → s.session ≠ .returned
  holder : s.wiped = true → s.holder ≠ some (.configure false)

theorem wipeInv_step {s s' : ReceiverController} {e : ReceiverEvent} (h : WipeInv s)
    (hk : s.keepsWipe e = true) (hs : s.step e = some s') : WipeInv s' := by
  obtain ⟨hflag, hcalling, hreturned, hholder⟩ := h
  cases effect_of_step hs with
  | connect c hdown =>
    -- the new session reads the raised flag
    refine ⟨hflag, fun hw => ?_, fun hw => ?_, hholder⟩ <;> cases c <;> simp [hflag hw]
  | start first hsession =>
    refine ⟨hflag, fun _ => nofun, fun _ => nofun, fun hw hf => hcalling hw ?_⟩
    simpa [hsession] using hf
  | written => exact ⟨nofun, nofun, nofun, nofun⟩
  | resume hreturn =>
    exact ⟨fun hw => (hreturned hw hreturn).elim, fun _ => nofun, fun _ => nofun, hholder⟩
  | ends _ session hend =>
    refine ⟨hflag, fun _ => ?_, fun _ => ?_, hholder⟩ <;> rcases hend with rfl | rfl <;> nofun
  | fails => exact ⟨hflag, fun _ => nofun, fun _ => nofun, fun _ => nofun⟩
  | takes _ holder hne =>
    exact ⟨hflag, hcalling, hreturned, fun _ hf => hne false (Option.some.inj hf)⟩
  | frees => exact ⟨hflag, hcalling, hreturned, fun _ => nofun⟩
  | reapplied => exact ⟨nofun, nofun, nofun, nofun⟩
  | wipe =>
    -- it finds no session that has read the flag lowered or is about to lower it
    have hkeep : s.session ≠ .calling false ∧ s.session ≠ .returned := by simpa [keepsWipe] using hk
    exact ⟨fun _ => rfl, fun _ => hkeep.1, fun _ => hkeep.2, fun _ => nofun⟩

/-- A configure that starts is a reapply, or the one the session called. -/
theorem layers_of_step {s s' : ReceiverController} {e : ReceiverEvent} (hs : s.step e = some s')
    (hc : s.configuring = false) {layers : ℕ} (hl : layers ∈ s'.holder.bind Holder.layers) :
    layers = layersAll ∨ s.session = .calling false := by
  have hkept : layers ∉ s.holder.bind Holder.layers := fun h => by
    rw [configuring, Option.mem_def.1 h] at hc
    simp at hc
  cases effect_of_step hs with
  | start first hsession =>
    cases first with
    | true => exact Or.inl (Option.some.inj hl).symm
    | false => exact Or.inr hsession
  | takes _ holder hne =>
    cases holder with
    | configure first => exact (hne first rfl).elim
    | reapply => exact Or.inl (Option.some.inj hl).symm
    | reset => simp [Holder.layers] at hl
  | connect => exact (hkept hl).elim
  | resume => exact (hkept hl).elim
  | ends => exact (hkept hl).elim
  | written => simp at hl
  | fails => simp at hl
  | frees => simp at hl
  | reapplied => simp at hl
  | wipe => simp [Holder.layers] at hl

/-- In every run that writes no wipe while a session's configure is called but not started
with `first` off, or done but not resumed from, a wipe is remembered in every state. -/
theorem factory_reset_remembered (s : ReceiverController)
    (hs : Reachable (guarded step keepsWipe) {} s) : s.Remembers := by
  have hinv : WipeInv s := by
    refine hs.invariant WipeInv ⟨nofun, nofun, nofun, nofun⟩ fun t e t' _ ht hstep => ?_
    obtain ⟨hk, hstep⟩ := guarded_eq_some.1 hstep
    exact wipeInv_step ht hk hstep
  refine fun hw hc => ⟨hinv.flag hw, fun e s' hstep layers hl => ?_⟩
  exact (layers_of_step hstep hc hl).resolve_right (hinv.calling hw)

/-- A session starts, its configure is done, it serves; then a factory reset. -/
def resetWhileServing : List ReceiverEvent :=
  [.connect true, .configureStart, .configureEnd true, .resume, .resetStart .factory, .wipe,
    .resetEnd]

/-- The same, the wipe being written before the session goes on after its configure. -/
def resetBeforeResume : List ReceiverEvent :=
  [.connect true, .configureStart, .configureEnd true, .resetStart .factory, .wipe, .resetEnd,
    .resume]

theorem factory_reset_remembered_serving :
    ∃ s, Reachable (guarded step keepsWipe) {} s ∧ s.wiped = true ∧ s.configuring = false ∧
      s.Remembers := by
  have hrun : run (guarded step keepsWipe) {} resetWhileServing =
      some { firstApply := true, holder := none, session := .serving, wiped := true } := by decide
  exact ⟨_, ⟨_, hrun⟩, rfl, rfl, factory_reset_remembered _ ⟨_, hrun⟩⟩

/-- The session lowers the flag the reset has raised, and its successor writes RAM only. -/
theorem factory_reset_forgotten :
    ∃ s, run step {} resetBeforeResume = some s ∧ s.wiped = true ∧ s.configuring = false ∧
      s.firstApply = false ∧ ∃ s', run step s [.abort, .close, .connect true, .configureStart] =
        some s' ∧ s'.holder.bind Holder.layers = some layersRam ∧ s'.wiped = true :=
  ⟨{ firstApply := false, holder := none, session := .serving, wiped := true }, by decide, rfl, rfl,
    rfl, { firstApply := false, holder := some (.configure false), session := .configuring,
           wiped := true }, by decide, rfl, rfl⟩

end ReceiverController

end Mtrtk
