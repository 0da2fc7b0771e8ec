import Mathlib.Algebra.Order.Field.Rat
import Mathlib.Tactic.Linarith
import Mtrtk.NtripSession
import Mtrtk.Run

/-!
# Attempts to reach the caster

`rover/ntrip_client.py` : `NtripClient._run` opens a session with the caster, waits, and opens the
next. A caster that refuses version 2 of the protocol is asked again at once in version 1. Every
other failure is followed by a pause : a minute where the credentials or the mountpoint are wrong,
else the backoff with its jitter.

A step of `NtripRun` is one of the things that happen to it between two awaits : an attempt, the
answer that begins a stream, the exception that ends the session, a sleep that is over. Each has its
time on a clock that never goes back. A sleep is never over too early, and the loop is at most `lag`
late with what is due : the end of a sleep, and an attempt that nothing is in the way of.

The attempts are kept beside the state, newest first, each with its times and with what followed it
(`NtripAttempt`), and `retry_discipline` says of every attempt what the earlier ones make of it,
when it begins included.
-/

namespace Mtrtk

/-- `AUTH_BACKOFF_S`. -/
def authBackoffS : ℚ := 60

/-- `MOUNT_BACKOFF_S`. -/
def mountBackoffS : ℚ := 60

/-- `BACKOFF_MIN_S`. -/
def ntripBackoffMinS : ℚ := 1

/-- `BACKOFF_MAX_S`. -/
def ntripBackoffMaxS : ℚ := 60

/-- `STABLE_S`. -/
def stableS : ℚ := 30

/-- What `random.uniform(0.8, 1.2)` returns. -/
structure Jitter where
  value : ℚ
  low : 4 / 5 ≤ value
  high : value ≤ 6 / 5

/-- `_jittered` : the delay now, and the backoff for the next failure. -/
def jittered (backoff : ℚ) (jitter : Jitter) : ℚ × ℚ :=
  (backoff * jitter.value, min (backoff * 2) ntripBackoffMaxS)

/-- What a session raises : an error of the session, of the socket, or any other. -/
inductive SessionFailure
  | session (error : SessionError)
  | socket
  | crash
  deriving DecidableEq, Repr

/-- The `except` clause that catches it, the first one by the `kind` of the response. -/
inductive FailureClause
  | auth | mount | other | network | crash
  deriving DecidableEq, Repr

def SessionFailure.clause : SessionFailure → FailureClause
  | .session (.response (.unauthorized _)) => .auth
  | .session (.response (.mountNotFound _ _)) => .mount
  | .session (.response .tooManyHeaders) | .session (.response (.unexpected _)) => .other
  | .session (.connection _) | .session (.protocol _) | .session .incompleteRead => .network
  | .socket => .network
  | .crash => .crash

/-- `NtripClientStatus`, without the counts of the stream. -/
structure ClientStatus where
  connected : Bool := false
  version : Option ℕ := none
  lastError : Option String := none
  reconnects : ℕ := 0
  nextRetryS : Option ℚ := none
  sinceMono : Option ℚ := none
  deriving DecidableEq, Repr

/-- `_set_connected`. -/
def ClientStatus.setConnected (status : ClientStatus) (value : Bool) (now : ℚ) : ClientStatus :=
  if status.connected = value then status
  else { status with connected := value, sinceMono := if value then some now else none }

/-- One attempt : the version it asks for, when it and its stream began, how and when it ended, and
the backoff and the pause that followed. -/
structure NtripAttempt where
  v2 : Bool
  begun : ℚ
  stream : Option ℚ := none
  ended : Option (SessionFailure × ℚ) := none
  backoff : Option ℚ := none
  pause : Option ℚ := none
  deriving DecidableEq, Repr

/-- Where `_run` is. -/
inductive ClientPhase
  | ready
  | session (v2 : Bool)
  /-- It sleeps until then. -/
  | pausing (wake : ℚ)
  | over
  deriving DecidableEq, Repr

/-- `NtripClient`, in `_run`. -/
structure NtripRun where
  phase : ClientPhase := .ready
  backoff : ℚ := ntripBackoffMinS
  v1Retry : Bool := false
  stickyV1 : Bool := false
  streamed : Bool := false
  status : ClientStatus := {}
  /-- What was published as `ntrip_client.status`, newest first. -/
  published : List ClientStatus := []
  /-- The time, and the attempts : neither is in the source. -/
  clock : ℚ := 0
  attempts : List NtripAttempt := []
  deriving DecidableEq, Repr

inductive ClientEvent
  /-- The loop sees no stop and opens a session. -/
  | attempt (now : ℚ)
  /-- `_classify` returns. -/
  | streams (version : ℕ) (now : ℚ)
  /-- The session raises, with the text for `last_error`. -/
  | fails (how : SessionFailure) (error : String) (now : ℚ) (jitter : Jitter)
  /-- `_sleep` is over. -/
  | slept (now : ℚ)
  /-- `stop` is set, or the task is cancelled. -/
  | leave (now : ℚ)

def ClientEvent.now : ClientEvent → ℚ
  | .attempt now | .streams _ now | .fails _ _ now _ | .slept now | .leave now => now

namespace NtripRun

/-- `_publish`. -/
def publish (s : NtripRun) : NtripRun := { s with published := s.status :: s.published }

/-- The last attempt, changed. -/
def note (s : NtripRun) (f : NtripAttempt → NtripAttempt) : NtripRun :=
  { s with attempts := s.attempts.modifyHead f }

/-- The stream is one that was working : it lasted `STABLE_S`. -/
def stable (s : NtripRun) (now : ℚ) : Bool := s.status.sinceMono.any fun t => now - t ≥ stableS

/-- What `_jittered` is called with, where it is called. -/
def base (s : NtripRun) (clause : FailureClause) (now : ℚ) : Option ℚ :=
  match clause with
  | .auth | .mount => none
  | .other | .crash => some s.backoff
  | .network => some (if s.stable now then ntripBackoffMinS else s.backoff)

/-- The delay and the next backoff of the `except` clauses. -/
def delayed (s : NtripRun) (clause : FailureClause) (now : ℚ) (jitter : Jitter) : ℚ × ℚ :=
  match clause with
  | .auth => (authBackoffS, s.backoff)
  | .mount => (mountBackoffS, s.backoff)
  | .other => jittered s.backoff jitter
  | .network => jittered (if s.stable now then ntripBackoffMinS else s.backoff) jitter
  | .crash => jittered s.backoff jitter

/-- What `_session` sets once the answer is a stream. -/
def onStream (s : NtripRun) (version : ℕ) (now : ℚ) : NtripRun :=
  let status := { s.status with version := some version, lastError := none, nextRetryS := none }
  { s with streamed := true, status := status.setConnected true now }.publish.note
    fun a => { a with stream := some now }

/-- A session that asked as `v2` raises. -/
def onFailure (s : NtripRun) (v2 : Bool) (how : SessionFailure) (error : String) (now : ℚ)
    (jitter : Jitter) : NtripRun :=
  let status := { s.status with lastError := some error }
  if how.clause = .other ∧ v2 then
    { s with
      phase := .ready
      v1Retry := true
      status := status.setConnected false now }.publish.note
        fun a => { a with ended := some (how, now) }
  else
    let (delay, backoff) := s.delayed how.clause now jitter
    let status := status.setConnected false now
    { s with
      phase := .pausing (now + delay)
      backoff := backoff
      stickyV1 := s.stickyV1 || s.v1Retry && s.streamed
      v1Retry := false
      status := { status with
        reconnects := status.reconnects + 1
        nextRetryS := some delay } }.publish.note
          fun a => { a with
            ended := some (how, now)
            backoff := s.base how.clause now
            pause := some delay }

/-- The `finally` of `run`. -/
def close (s : NtripRun) (now : ℚ) : NtripRun :=
  let status := s.status.setConnected false now
  { s with phase := .over, status := { status with nextRetryS := none } }.publish

/-- `run` begins. -/
def start (now : ℚ) : NtripRun := { clock := now }

/-- What an event does. -/
def act (lag : ℚ) (forceV1 : Bool) (s : NtripRun) : ClientEvent → Option NtripRun
  | .attempt now =>
    if s.phase = .ready ∧ now ≤ s.clock + lag then
      let v2 := !(forceV1 || s.stickyV1 || s.v1Retry)
      some { s with
        phase := .session v2
        streamed := false
        attempts := { v2, begun := now } :: s.attempts }
    else none
  | .streams version now =>
    match s.phase, s.streamed with
    | .session _, false => some (s.onStream version now)
    | _, _ => none
  | .fails how error now jitter =>
    match s.phase with
    | .session v2 => some (s.onFailure v2 how error now jitter)
    | _ => none
  | .slept now =>
    match s.phase with
    | .pausing wake =>
      if wake ≤ now ∧ now ≤ wake + lag then some { s with phase := .ready } else none
    | _ => none
  | .leave now => if s.phase = .over then none else some (s.close now)

/-- One thing that happens to `run`, not before the last. -/
def step (lag : ℚ) (forceV1 : Bool) (s : NtripRun) (e : ClientEvent) : Option NtripRun :=
  if s.clock ≤ e.now then (s.act lag forceV1 e).map fun s => { s with clock := e.now } else none

end NtripRun

/-! ## What earlier attempts make of one -/

namespace NtripAttempt

/-- An attempt in version 2 that the caster refused, not for the credentials or the mountpoint. -/
def refusedV2 (a : NtripAttempt) : Bool := a.v2 && a.ended.any fun e => e.1.clause = .other

/-- When the next may begin : it has ended, and its pause is over. -/
def nextFrom (a : NtripAttempt) : Option ℚ := a.ended.map fun e => e.2 + a.pause.getD 0

/-- A stream that lasted `STABLE_S` and ended with an error of the network. -/
def stable (a : NtripAttempt) : Bool :=
  a.stream.any fun t => a.ended.any fun e => e.1.clause = .network && e.2 - t ≥ stableS

end NtripAttempt

/-- The last of the attempts was refused in version 2, so that the next is its retry. -/
def RetryDue (attempts : List NtripAttempt) : Prop := ∃ a ∈ attempts.head?, a.refusedV2 = true

/-- A retry got as far as a stream. -/
def Cured (attempts : List NtripAttempt) : Prop :=
  ∃ retry earlier, retry :: earlier <:+ attempts ∧ RetryDue earlier ∧ retry.stream.isSome

/-- The backoff after the attempts : a second at first, doubled for each that used it, up to a
minute. -/
def rung (attempts : List NtripAttempt) : ℚ :=
  match attempts.findSome? NtripAttempt.backoff with
  | some backoff => min (backoff * 2) ntripBackoffMaxS
  | none => ntripBackoffMinS

/-- What the earlier attempts make of one. -/
structure NtripAttempt.Disciplined (a : NtripAttempt) (lag : ℚ) (forceV1 : Bool)
    (earlier : List NtripAttempt) : Prop where
  /-- The attempt before is over. -/
  inTurn : ∀ before ∈ earlier.head?, before.ended.isSome
  /-- It begins at once where the one before was refused in version 2, and a pause later where it
  was not. -/
  atOnce : ∀ before ∈ earlier.head?, before.refusedV2 = true → ∀ e ∈ before.ended,
    e.2 ≤ a.begun ∧ a.begun ≤ e.2 + 2 * lag
  separated : ∀ before ∈ earlier.head?, before.refusedV2 = false → ∀ e ∈ before.ended,
    e.2 + 4 / 5 ≤ a.begun ∧ a.begun ≤ e.2 + 72 + 2 * lag
  /-- It speaks version 1 if it is told to, if a retry was a success, or if it is a retry. -/
  speaksV1 : a.v2 = false ↔ forceV1 = true ∨ Cured earlier ∨ RetryDue earlier
  /-- It is followed by a pause, unless it is refused in version 2. -/
  paused : a.ended.isSome → (a.pause = none ↔ a.refusedV2 = true)
  pauseLow : ∀ delay ∈ a.pause, 4 / 5 ≤ delay
  pauseHigh : ∀ delay ∈ a.pause, delay ≤ 72
  /-- The backoff begins again after a stable stream only. -/
  ladder : ∀ backoff ∈ a.backoff,
    backoff = if a.stable then ntripBackoffMinS else rung earlier
  jitter : ∀ backoff ∈ a.backoff, ∃ delay ∈ a.pause,
    backoff * (4 / 5) ≤ delay ∧ delay ≤ backoff * (6 / 5)
  /-- Wrong credentials and a wrong mountpoint do not use it. -/
  fixed : ∀ e ∈ a.ended, a.pause.isSome →
    (a.backoff = none ↔ e.1.clause = .auth ∨ e.1.clause = .mount)
  fixedDelay : a.backoff = none → ∀ delay ∈ a.pause, delay = 60

/-- Every attempt is disciplined. -/
def AllDisciplined (lag : ℚ) (forceV1 : Bool) (attempts : List NtripAttempt) : Prop :=
  ∀ a earlier, a :: earlier <:+ attempts → a.Disciplined lag forceV1 earlier

section Attempts

variable {lag : ℚ} {forceV1 : Bool} {a : NtripAttempt} {earlier : List NtripAttempt}

theorem retryDue_cons : RetryDue (a :: earlier) ↔ a.refusedV2 = true := by simp [RetryDue]

theorem cured_cons : Cured (a :: earlier) ↔ Cured earlier ∨ RetryDue earlier ∧ a.stream.isSome := by
  constructor
  · rintro ⟨retry, before, hsuffix, hdue, hstream⟩
    rcases List.suffix_cons_iff.1 hsuffix with heq | hsuffix
    · obtain ⟨rfl, rfl⟩ := List.cons.inj heq
      exact .inr ⟨hdue, hstream⟩
    · exact .inl ⟨retry, before, hsuffix, hdue, hstream⟩
  · rintro (⟨retry, before, hsuffix, hdue, hstream⟩ | ⟨hdue, hstream⟩)
    · exact ⟨retry, before, hsuffix.trans (List.suffix_cons _ _), hdue, hstream⟩
    · exact ⟨a, earlier, List.suffix_rfl, hdue, hstream⟩

theorem rung_cons_some {backoff : ℚ} (h : a.backoff = some backoff) :
    rung (a :: earlier) = min (backoff * 2) ntripBackoffMaxS := by
  simp [rung, h]

theorem rung_cons_none (h : a.backoff = none) : rung (a :: earlier) = rung earlier := by
  simp [rung, h]

theorem AllDisciplined.cons (h : AllDisciplined lag forceV1 earlier)
    (ha : a.Disciplined lag forceV1 earlier) : AllDisciplined lag forceV1 (a :: earlier) := by
  intro b before hsuffix
  rcases List.suffix_cons_iff.1 hsuffix with heq | hsuffix
  · obtain ⟨rfl, rfl⟩ := List.cons.inj heq
    exact ha
  · exact h b before hsuffix

/-- An attempt begins when the one before it is over, at most `2 * lag` late. -/
def InTime (lag begun : ℚ) (earlier : List NtripAttempt) : Prop :=
  ∀ before ∈ earlier.head?, ∀ t ∈ before.nextFrom, t ≤ begun ∧ begun ≤ t + 2 * lag

/-- After one that was refused in version 2 that is at once. -/
theorem InTime.atOnce {begun : ℚ} (h : InTime lag begun earlier)
    (hall : AllDisciplined lag forceV1 earlier) :
    ∀ before ∈ earlier.head?, before.refusedV2 = true → ∀ e ∈ before.ended,
      e.2 ≤ begun ∧ begun ≤ e.2 + 2 * lag := by
  intro before hbefore hrefused e he
  obtain ⟨earliest, rfl⟩ := List.head?_eq_some_iff.1 hbefore
  have hbefore := hall before earliest List.suffix_rfl
  have hpause : before.pause = none := (hbefore.paused (Option.isSome_of_mem he)).2 hrefused
  have hfrom : before.nextFrom = some e.2 := by simp [NtripAttempt.nextFrom, Option.mem_def.1 he, hpause]
  exact h before rfl e.2 hfrom

/-- After any other it is the pause later. -/
theorem InTime.separated {begun : ℚ} (h : InTime lag begun earlier)
    (hall : AllDisciplined lag forceV1 earlier) :
    ∀ before ∈ earlier.head?, before.refusedV2 = false → ∀ e ∈ before.ended,
      e.2 + 4 / 5 ≤ begun ∧ begun ≤ e.2 + 72 + 2 * lag := by
  intro before hbefore hrefused e he
  obtain ⟨earliest, rfl⟩ := List.head?_eq_some_iff.1 hbefore
  have hbefore := hall before earliest List.suffix_rfl
  have hpause : before.pause ≠ none := fun hnone => by
    have hv2 := (hbefore.paused (Option.isSome_of_mem he)).1 hnone
    rw [hrefused] at hv2
    cases hv2
  obtain ⟨delay, hdelay⟩ := Option.ne_none_iff_exists'.1 hpause
  have hfrom : before.nextFrom = some (e.2 + delay) := by
    simp [NtripAttempt.nextFrom, Option.mem_def.1 he, hdelay]
  have hlow := hbefore.pauseLow delay hdelay
  have hhigh := hbefore.pauseHigh delay hdelay
  obtain ⟨hafter, hby⟩ := h before rfl _ hfrom
  constructor <;> linarith

end Attempts

theorem Jitter.bounds (jitter : Jitter) {backoff : ℚ} (h : ntripBackoffMinS ≤ backoff) :
    backoff * (4 / 5) ≤ backoff * jitter.value ∧ backoff * jitter.value ≤ backoff * (6 / 5) := by
  have hpos : 0 ≤ backoff := le_trans (by decide +kernel) h
  exact ⟨mul_le_mul_of_nonneg_left jitter.low hpos, mul_le_mul_of_nonneg_left jitter.high hpos⟩

namespace NtripRun

/-! ## The invariant -/

variable {lag begun : ℚ} {forceV1 : Bool} {s s' : NtripRun} {past : List NtripAttempt}

/-- What the loop knows of the attempts that are over. -/
structure Past (lag : ℚ) (forceV1 : Bool) (s : NtripRun) (past : List NtripAttempt) : Prop where
  all : AllDisciplined lag forceV1 past
  ended : ∀ a ∈ past.head?, a.ended.isSome
  retry : s.v1Retry = true ↔ RetryDue past
  sticky : s.stickyV1 = true ↔ Cured past
  backoff : s.backoff = rung past
  low : ntripBackoffMinS ≤ s.backoff
  high : s.backoff ≤ ntripBackoffMaxS

/-- Nothing else of the state is spoken of. -/
theorem Past.congr (h : s.Past lag forceV1 past) (hretry : s'.v1Retry = s.v1Retry)
    (hsticky : s'.stickyV1 = s.stickyV1) (hbackoff : s'.backoff = s.backoff) :
    s'.Past lag forceV1 past where
  all := h.all
  ended := h.ended
  retry := by rw [hretry]; exact h.retry
  sticky := by rw [hsticky]; exact h.sticky
  backoff := by rw [hbackoff]; exact h.backoff
  low := by rw [hbackoff]; exact h.low
  high := by rw [hbackoff]; exact h.high

/-- The last attempt is over when the sleep is, and has been for at most `lag` when there is no
sleep. -/
def Due (lag : ℚ) (s : NtripRun) : Prop :=
  ∀ before ∈ s.attempts.head?, ∀ t ∈ before.nextFrom,
    match s.phase with
    | .pausing wake => wake = t
    | _ => t ≤ s.clock ∧ (0 ≤ lag → s.clock ≤ t + lag)

/-- What holds in every state of a run. -/
inductive Inv (lag : ℚ) (forceV1 : Bool) (s : NtripRun) : Prop
  | between (hphase : s.phase = .ready ∨ ∃ wake, s.phase = .pausing wake)
      (hpast : s.Past lag forceV1 s.attempts) (hstatus : s.status.connected = false)
      (hsince : s.status.sinceMono = none) (hdue : s.Due lag)
  | under {v2 : Bool} {begun : ℚ} {past : List NtripAttempt} (hphase : s.phase = .session v2)
      (hattempts : s.attempts = { v2, begun, stream := s.status.sinceMono } :: past)
      (hpast : s.Past lag forceV1 past) (hintime : InTime lag begun past)
      (hv2 : v2 = !(forceV1 || s.stickyV1 || s.v1Retry))
      (hstatus : s.status.connected = s.status.sinceMono.isSome)
      (hstreamed : s.streamed = s.status.sinceMono.isSome)
  | gone (hphase : s.phase = .over) (hall : AllDisciplined lag forceV1 s.attempts)

theorem inv_start (now : ℚ) : (start now).Inv lag forceV1 := by
  have hrange : ntripBackoffMinS ≤ ntripBackoffMaxS := by decide +kernel
  refine .between (.inl rfl) ⟨?_, by simp [start], ?_, ?_, rfl, le_refl _, hrange⟩ rfl rfl
    (by simp [Due, start])
  · intro a earlier h
    simp [start] at h
  · simp [RetryDue, start]
  · simp [Cured, start]

/-- The version it asks for is that of the earlier attempts. -/
theorem Past.speaksV1 (h : s.Past lag forceV1 past) :
    (!(forceV1 || s.stickyV1 || s.v1Retry)) = false ↔
      forceV1 = true ∨ Cured past ∨ RetryDue past := by
  rw [← h.sticky, ← h.retry]
  cases forceV1 <;> cases s.stickyV1 <;> cases s.v1Retry <;> decide

/-- An attempt that is not over is disciplined as soon as its version is. -/
theorem Past.underWay (h : s.Past lag forceV1 past) (hintime : InTime lag begun past) {v2 : Bool}
    (hv2 : v2 = !(forceV1 || s.stickyV1 || s.v1Retry)) (stream : Option ℚ) :
    ({ v2, begun, stream } : NtripAttempt).Disciplined lag forceV1 past where
  inTurn := h.ended
  atOnce := hintime.atOnce h.all
  separated := hintime.separated h.all
  speaksV1 := by rw [hv2]; exact h.speaksV1
  paused := by simp
  pauseLow := by simp
  pauseHigh := by simp
  ladder := by simp
  jitter := by simp
  fixed := by simp
  fixedDelay := by simp

/-! ## The end of an attempt -/

/-- `base` is what `delayed` starts from. -/
theorem delayed_eq (s : NtripRun) (clause : FailureClause) (now : ℚ) (jitter : Jitter) :
    (∃ backoff, s.base clause now = some backoff ∧
      s.delayed clause now jitter = jittered backoff jitter) ∨
    s.base clause now = none ∧ (clause = .auth ∨ clause = .mount) ∧
      s.delayed clause now jitter = (60, s.backoff) := by
  cases clause with
  | auth => exact .inr ⟨rfl, .inl rfl, rfl⟩
  | mount => exact .inr ⟨rfl, .inr rfl, rfl⟩
  | other | network | crash => exact .inl ⟨_, rfl, rfl⟩

/-- The backoff is that of the ladder, or a second after a stable stream. -/
theorem Past.base_eq (h : s.Past lag forceV1 past) {how : SessionFailure} {now backoff : ℚ}
    (hbase : s.base how.clause now = some backoff) {a : NtripAttempt}
    (hstream : a.stream = s.status.sinceMono) (hended : a.ended = some (how, now)) :
    backoff = if a.stable then ntripBackoffMinS else rung past := by
  have hstable : a.stable = (s.stable now && decide (how.clause = .network)) := by
    rw [NtripAttempt.stable, NtripRun.stable, hstream, hended]
    cases s.status.sinceMono <;> simp [Bool.and_comm]
  rw [hstable, ← h.backoff]
  cases hclause : how.clause <;> rw [hclause] at hbase <;> simp_all [base]

theorem Past.base_mem (h : s.Past lag forceV1 past) {clause : FailureClause} {now backoff : ℚ}
    (hbase : s.base clause now = some backoff) :
    ntripBackoffMinS ≤ backoff ∧ backoff ≤ ntripBackoffMaxS := by
  have hmin : ntripBackoffMinS ≤ ntripBackoffMaxS := by decide +kernel
  cases clause <;> simp only [base, Option.some.injEq, reduceCtorEq] at hbase
  · exact hbase ▸ ⟨h.low, h.high⟩
  · subst hbase
    split
    · exact ⟨le_refl _, hmin⟩
    · exact ⟨h.low, h.high⟩
  · exact hbase ▸ ⟨h.low, h.high⟩

/-- The backoff for the next failure is the next rung. -/
theorem Past.delayed_backoff (h : s.Past lag forceV1 past) (clause : FailureClause) (now : ℚ)
    (jitter : Jitter) :
    (∀ a : NtripAttempt, a.backoff = s.base clause now →
      (s.delayed clause now jitter).2 = rung (a :: past)) ∧
    ntripBackoffMinS ≤ (s.delayed clause now jitter).2 ∧
      (s.delayed clause now jitter).2 ≤ ntripBackoffMaxS := by
  rcases delayed_eq s clause now jitter with ⟨backoff, hbase, hdelayed⟩ | ⟨hbase, -, hdelayed⟩
  · have hlow := (h.base_mem hbase).1
    have hmin : ntripBackoffMinS = 1 := rfl
    have hmax : ntripBackoffMaxS = 60 := rfl
    rw [hdelayed]
    refine ⟨fun a ha => (rung_cons_some (ha.trans hbase)).symm, le_min ?_ ?_, min_le_right _ _⟩
    · linarith
    · linarith
  · rw [hdelayed]
    exact ⟨fun a ha => h.backoff.trans (rung_cons_none (ha.trans hbase)).symm, h.low, h.high⟩

/-- The attempt that a pause follows. -/
theorem Past.failed (h : s.Past lag forceV1 past) (hintime : InTime lag begun past) {v2 : Bool}
    (hv2 : v2 = !(forceV1 || s.stickyV1 || s.v1Retry)) {how : SessionFailure}
    (hother : ¬(how.clause = .other ∧ v2 = true)) (now : ℚ) (jitter : Jitter) :
    ({ v2, begun
       stream := s.status.sinceMono
       ended := some (how, now)
       backoff := s.base how.clause now
       pause := some (s.delayed how.clause now jitter).1 } : NtripAttempt).Disciplined
      lag forceV1 past := by
  have hunder := h.underWay hintime hv2 s.status.sinceMono
  have hrefused : (v2 && decide (how.clause = .other)) = false := by
    simpa [and_comm, imp_iff_not_or] using hother
  rcases delayed_eq s how.clause now jitter with
    ⟨backoff, hbase, hdelayed⟩ | ⟨hbase, hclause, hdelayed⟩
  · obtain ⟨hlow, hhigh⟩ := h.base_mem hbase
    obtain ⟨hjlow, hjhigh⟩ := jitter.bounds hlow
    have hmin : ntripBackoffMinS = 1 := rfl
    have hmax : ntripBackoffMaxS = 60 := rfl
    have hclause : how.clause ≠ .auth ∧ how.clause ≠ .mount := by
      constructor <;> intro heq <;> simp [heq, base] at hbase
    rw [hbase, hdelayed]
    exact {
      inTurn := hunder.inTurn
      atOnce := hunder.atOnce
      separated := hunder.separated
      speaksV1 := hunder.speaksV1
      paused := by simp [NtripAttempt.refusedV2, hrefused]
      pauseLow := by simp only [jittered, Option.mem_def, Option.some.injEq, forall_eq']; linarith
      pauseHigh := by simp only [jittered, Option.mem_def, Option.some.injEq, forall_eq']; linarith
      ladder := by
        rintro _ ⟨⟩
        exact h.base_eq hbase rfl rfl
      jitter := by
        rintro _ ⟨⟩
        exact ⟨_, rfl, hjlow, hjhigh⟩
      fixed := by simp [hclause]
      fixedDelay := by simp }
  · rw [hbase, hdelayed]
    exact {
      inTurn := hunder.inTurn
      atOnce := hunder.atOnce
      separated := hunder.separated
      speaksV1 := hunder.speaksV1
      paused := by simp [NtripAttempt.refusedV2, hrefused]
      pauseLow := by simp only [Option.mem_def, Option.some.injEq, forall_eq']; norm_num
      pauseHigh := by simp only [Option.mem_def, Option.some.injEq, forall_eq']; norm_num
      ladder := by simp
      jitter := by simp
      fixed := by simp [hclause]
      fixedDelay := by simp }

/-- The attempt that is followed at once by another, in version 1. -/
theorem Past.refused (h : s.Past lag forceV1 past) (hintime : InTime lag begun past)
    (hv2 : true = !(forceV1 || s.stickyV1 || s.v1Retry)) {how : SessionFailure}
    (hother : how.clause = .other) (now : ℚ) :
    ({ v2 := true, begun
       stream := s.status.sinceMono
       ended := some (how, now) } : NtripAttempt).Disciplined lag forceV1 past := by
  have hunder := h.underWay hintime hv2 s.status.sinceMono
  exact {
    inTurn := hunder.inTurn
    atOnce := hunder.atOnce
    separated := hunder.separated
    speaksV1 := hunder.speaksV1
    paused := by simp [NtripAttempt.refusedV2, hother]
    pauseLow := by simp
    pauseHigh := by simp
    ladder := by simp
    jitter := by simp
    fixed := by simp
    fixedDelay := by simp }

theorem setConnected_false (status : ClientStatus) (now : ℚ)
    (h : status.connected = status.sinceMono.isSome) :
    (status.setConnected false now).connected = false ∧
      (status.setConnected false now).sinceMono = none := by
  unfold ClientStatus.setConnected
  split
  · next heq =>
    rw [heq] at h
    exact ⟨heq, Option.isNone_iff_eq_none.1 (by simpa using h.symm)⟩
  · exact ⟨rfl, rfl⟩

theorem Inv.fails {v2 : Bool} (h : s.Inv lag forceV1) (hphase : s.phase = .session v2)
    (how : SessionFailure) (error : String) (now : ℚ) (jitter : Jitter) :
    ({ s.onFailure v2 how error now jitter with clock := now }).Inv lag forceV1 := by
  cases h with
  | between hready =>
    rcases hready with hready | ⟨delay, hready⟩ <;> rw [hphase] at hready <;> cases hready
  | gone hgone => rw [hphase] at hgone; cases hgone
  | @under v begun past hsession hattempts hpast hintime hv2 hstatus hstreamed =>
    obtain rfl : v2 = v := ClientPhase.session.inj (hphase.symm.trans hsession)
    obtain ⟨hdown, hsince⟩ :=
      setConnected_false { s.status with lastError := some error } now hstatus
    by_cases hother : how.clause = .other ∧ v2 = true
    · obtain ⟨hclause, rfl⟩ := hother
      have hnew := hpast.refused hintime hv2 hclause now
      rw [onFailure, if_pos ⟨hclause, rfl⟩]
      refine .between (.inl rfl) ?_ hdown hsince
        (by simp [Due, note, publish, hattempts, NtripAttempt.nextFrom])
      change Past lag forceV1 _ (s.attempts.modifyHead _)
      rw [hattempts]
      have hdue : ¬RetryDue past := by
        rw [← hpast.retry]
        intro hretry
        simp [hretry] at hv2
      exact {
        all := hpast.all.cons hnew
        ended := by simp
        retry := by simp [note, publish, retryDue_cons, NtripAttempt.refusedV2, hclause]
        sticky := by simpa [note, publish, cured_cons, hdue] using hpast.sticky
        backoff := by
          rw [List.modifyHead_cons, rung_cons_none rfl]
          exact hpast.backoff
        low := hpast.low
        high := hpast.high }
    · have hnew := hpast.failed hintime hv2 hother now jitter
      rw [onFailure, if_neg hother]
      refine .between (.inr ⟨_, rfl⟩) ?_ hdown hsince
        (by simp [Due, note, publish, hattempts, NtripAttempt.nextFrom])
      change Past lag forceV1 _ (s.attempts.modifyHead _)
      rw [hattempts]
      have hrefused : (v2 && decide (how.clause = .other)) = false := by
        simpa [and_comm, imp_iff_not_or] using hother
      obtain ⟨hrung, hlow, hhigh⟩ := hpast.delayed_backoff how.clause now jitter
      exact {
        all := hpast.all.cons hnew
        ended := by simp
        retry := by simp [note, publish, retryDue_cons, NtripAttempt.refusedV2, hrefused]
        sticky := by
          simp [note, publish, cured_cons, ← hpast.sticky, ← hpast.retry, hstreamed]
        backoff := hrung _ rfl
        low := hlow
        high := hhigh }

theorem Inv.streams {v2 : Bool} (h : s.Inv lag forceV1) (hphase : s.phase = .session v2)
    (hstream : s.streamed = false) (version : ℕ) (now : ℚ) :
    ({ s.onStream version now with clock := now }).Inv lag forceV1 := by
  cases h with
  | between hready =>
    rcases hready with hready | ⟨delay, hready⟩ <;> rw [hphase] at hready <;> cases hready
  | gone hgone => rw [hphase] at hgone; cases hgone
  | under hsession hattempts hpast hintime hv2 hstatus hstreamed =>
    have hdown : s.status.connected = false := by rw [hstatus, ← hstreamed, hstream]
    have hset : (s.onStream version now).status.sinceMono = some now ∧
        (s.onStream version now).status.connected = true := by
      simp [onStream, note, publish, ClientStatus.setConnected, hdown]
    refine .under hsession ?_ (hpast.congr rfl rfl rfl) hintime hv2 ?_ ?_
    · rw [hset.1]
      change s.attempts.modifyHead _ = _
      rw [hattempts]
      rfl
    · rw [hset.1, hset.2]
      rfl
    · rw [hset.1]
      rfl

theorem Inv.all (h : s.Inv lag forceV1) : AllDisciplined lag forceV1 s.attempts := by
  cases h with
  | between _ hpast => exact hpast.all
  | under _ hattempts hpast hintime hv2 =>
    rw [hattempts]
    exact hpast.all.cons (hpast.underWay hintime hv2 _)
  | gone _ hall => exact hall

/-- The attempt begins when the last is over, at most `lag` after a sleep that was at most `lag`
late. -/
theorem Due.inTime (h : s.Due lag) (hphase : s.phase = .ready) {now : ℚ} (hclock : s.clock ≤ now)
    (hnow : now ≤ s.clock + lag) : InTime lag now s.attempts := by
  intro before hbefore t ht
  have hdue := h before hbefore t ht
  simp only [hphase] at hdue
  obtain ⟨hafter, hby⟩ := hdue
  have hlag : 0 ≤ lag := by linarith
  have := hby hlag
  constructor <;> linarith

theorem Inv.attempt {now : ℚ} (h : s.Inv lag forceV1) (hclock : s.clock ≤ now)
    (hs : s.act lag forceV1 (.attempt now) = some s') :
    ({ s' with clock := now }).Inv lag forceV1 := by
  obtain ⟨⟨hphase, hnow⟩, hs⟩ := Option.ite_none_right_eq_some.1 hs
  obtain rfl := Option.some.inj hs
  cases h with
  | between _ hpast hstatus hsince hdue =>
    refine .under rfl (by rw [hsince]) ?_ (hdue.inTime hphase hclock hnow) rfl ?_ ?_
    · exact hpast.congr rfl rfl rfl
    · rw [hstatus, hsince]
      rfl
    · rw [hsince]
      rfl
  | under hsession => rw [hphase] at hsession; cases hsession
  | gone hgone => rw [hphase] at hgone; cases hgone

theorem Inv.slept {now wake : ℚ} (h : s.Inv lag forceV1) (hphase : s.phase = .pausing wake)
    (hwake : wake ≤ now) (hnow : now ≤ wake + lag) :
    ({ s with phase := .ready, clock := now }).Inv lag forceV1 := by
  cases h with
  | between _ hpast hstatus hsince hdue =>
    refine .between (.inl rfl) (hpast.congr rfl rfl rfl) hstatus hsince ?_
    intro before hbefore t ht
    have heq := hdue before hbefore t ht
    simp only [hphase] at heq
    exact ⟨heq ▸ hwake, fun _ => heq ▸ hnow⟩
  | under hsession => rw [hphase] at hsession; cases hsession
  | gone hgone => rw [hphase] at hgone; cases hgone

theorem inv_step {e : ClientEvent} (h : s.Inv lag forceV1) (hs : s.step lag forceV1 e = some s') :
    s'.Inv lag forceV1 := by
  obtain ⟨hclock, hs⟩ := Option.ite_none_right_eq_some.1 hs
  obtain ⟨s', hact, rfl⟩ := Option.map_eq_some_iff.1 hs
  cases e with
  | attempt now => exact h.attempt hclock hact
  | streams version now =>
    simp only [act] at hact
    split at hact
    next v2 hphase hstream =>
      obtain rfl := Option.some.inj hact
      exact h.streams hphase hstream version now
    next => cases hact
  | fails how error now jitter =>
    simp only [act] at hact
    split at hact
    next v2 hphase =>
      obtain rfl := Option.some.inj hact
      exact h.fails hphase how error now jitter
    next => cases hact
  | slept now =>
    simp only [act] at hact
    split at hact
    next wake hphase =>
      obtain ⟨⟨hwake, hnow⟩, hact⟩ := Option.ite_none_right_eq_some.1 hact
      obtain rfl := Option.some.inj hact
      exact h.slept hphase hwake hnow
    next => cases hact
  | leave now =>
    simp only [act] at hact
    split at hact
    next => cases hact
    next =>
      obtain rfl := Option.some.inj hact
      exact .gone rfl h.all

/-- **Every attempt of a run is disciplined** : whatever ends the sessions, whatever the jitter and
however late the loop is, each is what the earlier ones make of it, and begins when they let it. -/
theorem retry_discipline (lag : ℚ) (forceV1 : Bool) (now : ℚ) {s : NtripRun}
    (h : Reachable (step lag forceV1) (start now) s) {a : NtripAttempt}
    {earlier : List NtripAttempt} (ha : a :: earlier <:+ s.attempts) :
    a.Disciplined lag forceV1 earlier := by
  have hinv : s.Inv lag forceV1 :=
    h.invariant (Inv lag forceV1) (inv_start now) fun _ _ _ _ ht hstep => inv_step ht hstep
  exact hinv.all a earlier ha

/-- No jitter. -/
def evenJitter : Jitter := ⟨1, by decide +kernel, by decide +kernel⟩

/-- A caster that cannot be asked in version 2, streams in version 1 for 40 s, and hangs up. -/
def oldCaster : List ClientEvent :=
  [.attempt 0,
   .fails (.session (.response .tooManyHeaders)) "caster sent too many headers" 1 evenJitter,
   .attempt 1,
   .streams 1 2,
   .fails (.session .incompleteRead) "IncompleteReadError" 42 evenJitter,
   .slept 43,
   .attempt 43,
   .fails .socket "ConnectionRefusedError" 44 evenJitter,
   .slept 46,
   .attempt 46]

/-- The attempts before the last, newest first. -/
def oldCasterAttempts : List NtripAttempt :=
  [{ v2 := false
     begun := 43
     ended := some (.socket, 44)
     backoff := some 2
     pause := some 2 },
   { v2 := false
     begun := 1
     stream := some 2
     ended := some (.session .incompleteRead, 42)
     backoff := some 1
     pause := some 1 },
   { v2 := true, begun := 0, ended := some (.session (.response .tooManyHeaders), 1) }]

/-- The retry is at once, and after it every attempt is in version 1 and a pause later. -/
theorem retry_discipline_oldCaster :
    NtripAttempt.Disciplined { v2 := false, begun := 46 } 0 false oldCasterAttempts := by
  have hrun : (run (step 0 false) (start 0) oldCaster).map NtripRun.attempts =
      some ({ v2 := false, begun := 46 } :: oldCasterAttempts) := by decide +kernel
  obtain ⟨s, hs, hattempts⟩ := Option.map_eq_some_iff.1 hrun
  exact retry_discipline 0 false 0 ⟨oldCaster, hs⟩ (hattempts ▸ List.suffix_rfl)

end NtripRun

end Mtrtk
