import Mathlib.Data.List.Chain
import Mtrtk.Run

/-!
# Outages of the receiver

`core/receiver.py` : `ReceiverController.run` opens the source, runs a session on it, and starts
over until the source ends or it is told to stop. A source that does not open, or a session that
fails, is followed by a sleep, of the backoff or of the source's own `retry_s`.

A step of `ReceiverRun` is one of the things that happen to it between two awaits : a failed open, a
connect, a configure that succeeds, the end of a session, a sleep that is over. What it publishes
under `receiver.*` is kept, newest first, with a mark on what `_report_open_failure` publishes.

`outages_reported` says of every state : connects and disconnects alternate, a reason is reported
once between two connects, and the backoff is on its ladder.
-/

namespace Mtrtk

/-- `BACKOFF_MIN_S`. -/
def receiverBackoffMin : ℕ := 1

/-- `BACKOFF_MAX_S`. -/
def receiverBackoffMax : ℕ := 30

/-- What comes after `receiver.` in a topic. -/
inductive ReceiverTopic
  | connected | disconnected | error
  deriving DecidableEq, Repr

/-- What is published on the bus. `opening` is not in the source : it is `_report_open_failure`
that publishes it. -/
structure ReceiverNews where
  topic : ReceiverTopic
  message : String
  opening : Bool := false
  deriving DecidableEq, Repr

/-- How `_session` ends : `stop` fires, or the exception of its `except` clauses, or the run is
cancelled. -/
inductive SessionEnd
  | stopped
  | sourceEnded
  | profileError (message : String)
  | receiverError (message : String)
  | linkFailure (message : String)
  | unexpected (message : String)
  | cancelled
  deriving DecidableEq, Repr

/-- `reason`. -/
def SessionEnd.reason : SessionEnd → String
  | .stopped | .cancelled => "stopped"
  | .sourceEnded => "source ended"
  | .profileError message | .receiverError message => message
  | .linkFailure message => "link failure: " ++ message
  | .unexpected message => "unexpected failure: " ++ message

/-- `failed`. -/
def SessionEnd.failed : SessionEnd → Bool
  | .stopped | .sourceEnded | .cancelled => false
  | _ => true

/-- `fatal` : whether the exception is raised again. -/
def SessionEnd.fatal (strict configuredOnce : Bool) : SessionEnd → Bool
  | .profileError _ => strict && !configuredOnce
  | _ => false

/-- Where `run` is. -/
inductive RunPhase
  | opening
  | sleeping (fixed : Option ℕ)
  | configuring
  | watching
  | over
  deriving DecidableEq, Repr

/-- A session is under way. -/
def RunPhase.inSession : RunPhase → Bool
  | .configuring | .watching => true
  | _ => false

/-- `ReceiverController`, in `run`. -/
structure ReceiverRun where
  phase : RunPhase := .opening
  backoff : ℕ := receiverBackoffMin
  downReported : Bool := false
  openFailures : List String := []
  configuredOnce : Bool := false
  news : List ReceiverNews := []
  deriving DecidableEq, Repr

inductive RunEvent
  /-- `open` raises, of a source with its own `retry_s` or without. -/
  | openFailed (reason : String) (retry : Option ℕ)
  /-- The source is open and its link started. -/
  | connect (name : String) (configuring : Bool)
  | configured
  /-- The session is over, and `stop` is set then or not. -/
  | drop (how : SessionEnd) (stop : Bool)
  | slept
  /-- `stop` is seen by the loop, or the run is cancelled outside a session. -/
  | leave
  deriving DecidableEq, Repr

/-- A session is established that needs no configure, or is configured. -/
def RunEvent.establishes : RunEvent → Bool
  | .connect _ configuring => !configuring
  | .configured => true
  | _ => false

namespace ReceiverRun

/-- `bus.publish`. -/
def publish (s : ReceiverRun) (n : ReceiverNews) : ReceiverRun := { s with news := n :: s.news }

/-- `_report_open_failure`. -/
def reportOpenFailure (s : ReceiverRun) (reason : String) : ReceiverRun :=
  if reason ∈ s.openFailures then s
  else
    let afterDrop := s.downReported && s.openFailures.isEmpty
    let s' := { s with openFailures := reason :: s.openFailures }
    if !s.downReported then
      { s' with downReported := true }.publish ⟨.disconnected, reason, true⟩
    else if !afterDrop then s'.publish ⟨.error, reason, true⟩
    else s'

/-- What the `except` clauses and the `finally` of `_session` publish and set. -/
def tearDown (s : ReceiverRun) (how : SessionEnd) : ReceiverRun :=
  { (if how.failed then s.publish ⟨.error, how.reason, false⟩ else s) with
    downReported := true, openFailures := [] }.publish ⟨.disconnected, how.reason, false⟩

/-- One thing that happens to `run`. -/
def step (strict : Bool) (s : ReceiverRun) : RunEvent → Option ReceiverRun
  | .openFailed reason retry =>
    if s.phase = .opening then some { s.reportOpenFailure reason with phase := .sleeping retry }
    else none
  | .connect name configuring =>
    if s.phase = .opening then
      some ({ s with
        phase := if configuring then .configuring else .watching
        backoff := if configuring then s.backoff else receiverBackoffMin
        }.publish ⟨.connected, name, false⟩)
    else none
  | .configured =>
    if s.phase = .configuring then
      some { s with phase := .watching, backoff := receiverBackoffMin, configuredOnce := true }
    else none
  | .drop how stop =>
    if s.phase.inSession then
      let again := how.failed && !how.fatal strict s.configuredOnce && !stop
      some { s.tearDown how with phase := if again then .sleeping none else .over }
    else none
  | .slept =>
    match s.phase with
    | .sleeping none =>
      some { s with phase := .opening, backoff := min (s.backoff * 2) receiverBackoffMax }
    | .sleeping (some _) => some { s with phase := .opening }
    | _ => none
  | .leave =>
    match s.phase with
    | .opening | .sleeping _ => some { s with phase := .over }
    | _ => none

/-! ## What is published -/

/-- Whether a message says that the receiver is up, or that it is down. -/
def edge (n : ReceiverNews) : Option Bool :=
  match n.topic with
  | .connected => some true
  | .disconnected => some false
  | .error => none

/-- The connects and disconnects, newest first. -/
def edges (news : List ReceiverNews) : List Bool := news.filterMap edge

/-- The reasons for which no source was opened, of those published since the last connect. -/
def reported (news : List ReceiverNews) : List String :=
  ((news.takeWhile (·.topic ≠ .connected)).filter (·.opening)).map (·.message)

/-- No reason is reported twice in one outage : none is there when it is published. -/
def OncePerOutage (news : List ReceiverNews) : Prop := ∀ l, l <:+ news → (reported l).Nodup

theorem reported_connected {n : ReceiverNews} (h : n.topic = .connected)
    (news : List ReceiverNews) : reported (n :: news) = [] := by
  rw [reported, List.takeWhile_cons_of_neg (by simp [h])]
  rfl

theorem reported_cons {n : ReceiverNews} (h : n.topic ≠ .connected) (news : List ReceiverNews) :
    reported (n :: news) = if n.opening then n.message :: reported news else reported news := by
  rw [reported, List.takeWhile_cons_of_pos (by simp [h]), List.filter_cons]
  split <;> rfl

theorem OncePerOutage.cons_iff {n : ReceiverNews} {news : List ReceiverNews} :
    OncePerOutage (n :: news) ↔ OncePerOutage news ∧ (reported (n :: news)).Nodup := by
  simp only [OncePerOutage, List.suffix_cons_iff, forall_eq_or_imp]
  exact and_comm

theorem OncePerOutage.nodup {news : List ReceiverNews} (h : OncePerOutage news) :
    (reported news).Nodup :=
  h news List.suffix_rfl

/-! ## The invariant -/

/-- The last edge there is to be : that of the session, or the report of the outage. -/
def lastEdge (s : ReceiverRun) : Option Bool :=
  if s.phase.inSession then some true else if s.downReported then some false else none

/-- What holds in every state of a run. -/
structure Inv (s : ReceiverRun) : Prop where
  alternate : (edges s.news).IsChain (· ≠ ·)
  last : (edges s.news).head? = s.lastEdge
  once : OncePerOutage s.news
  /-- No reason is reported in a session, and each that is reported in an outage is known. -/
  known : ∀ r ∈ reported s.news, s.phase.inSession = false ∧ r ∈ s.openFailures
  fresh : s.downReported = false → s.openFailures = []
  low : receiverBackoffMin ≤ s.backoff
  high : s.backoff ≤ receiverBackoffMax

theorem inv_init : Inv {} where
  alternate := .nil
  last := rfl
  once l hl := by simp [List.suffix_nil.1 hl, reported]
  known r hr := by simp [reported] at hr
  fresh _ := rfl
  low := by decide
  high := by decide

/-- An edge that is not the last one. -/
theorem edges_cons {b : Bool} {news : List ReceiverNews} (h : (edges news).IsChain (· ≠ ·))
    (hb : (edges news).head? ≠ some b) : (b :: edges news).IsChain (· ≠ ·) := by
  refine List.isChain_cons.2 ⟨fun b' hb' heq => hb ?_, h⟩
  rw [heq]
  exact hb'

/-- A reason that is new, in an outage that is reported : by it, before it, or by a drop. -/
theorem reportOpenFailure_new {s : ReceiverRun} {reason : String} (h : reason ∉ s.openFailures) :
    ∃ news, s.reportOpenFailure reason =
        { s with downReported := true, openFailures := reason :: s.openFailures, news := news } ∧
      (s.downReported = false ∧ news = ⟨.disconnected, reason, true⟩ :: s.news ∨
        s.downReported = true ∧ (news = ⟨.error, reason, true⟩ :: s.news ∨ news = s.news)) := by
  rw [reportOpenFailure, if_neg h]
  cases hdown : s.downReported with
  | false => exact ⟨_, rfl, .inl ⟨rfl, rfl⟩⟩
  | true =>
    cases hempty : s.openFailures.isEmpty with
    | false => exact ⟨_, rfl, .inr ⟨rfl, .inl rfl⟩⟩
    | true => exact ⟨_, rfl, .inr ⟨rfl, .inr rfl⟩⟩

theorem reportOpenFailure_rest (s : ReceiverRun) (reason : String) :
    (s.reportOpenFailure reason).phase = s.phase ∧
      (s.reportOpenFailure reason).backoff = s.backoff := by
  by_cases hnew : reason ∈ s.openFailures
  · rw [reportOpenFailure, if_pos hnew]
    exact ⟨rfl, rfl⟩
  · obtain ⟨news, heq, -⟩ := reportOpenFailure_new hnew
    rw [heq]
    exact ⟨rfl, rfl⟩

theorem Inv.reportOpenFailure {s : ReceiverRun} (h : Inv s) (hout : s.phase.inSession = false)
    (reason : String) : Inv (s.reportOpenFailure reason) := by
  by_cases hnew : reason ∈ s.openFailures
  · rw [ReceiverRun.reportOpenFailure, if_pos hnew]
    exact h
  obtain ⟨news, heq, hnews⟩ := reportOpenFailure_new hnew
  have hlast : (edges s.news).head? = if s.downReported then some false else none := by
    rw [h.last, lastEdge, hout]
    rfl
  have hnodup : (reason :: reported s.news).Nodup :=
    List.nodup_cons.2 ⟨fun hr => hnew (h.known reason hr).2, h.once.nodup⟩
  have hall : (edges news).IsChain (· ≠ ·) ∧ (edges news).head? = some false ∧
      OncePerOutage news ∧ reported news ⊆ reason :: reported s.news := by
    rcases hnews with ⟨hdown, rfl⟩ | ⟨hdown, rfl | rfl⟩
    · rw [hdown] at hlast
      rw [OncePerOutage.cons_iff, reported_cons (by simp)]
      exact ⟨edges_cons h.alternate (by simp [hlast]), rfl, ⟨h.once, hnodup⟩, List.Subset.refl _⟩
    · rw [hdown] at hlast
      rw [OncePerOutage.cons_iff, reported_cons (by simp)]
      exact ⟨h.alternate, hlast, ⟨h.once, hnodup⟩, List.Subset.refl _⟩
    · rw [hdown] at hlast
      exact ⟨h.alternate, hlast, h.once, List.subset_cons_self _ _⟩
  obtain ⟨halternate, hhead, honce, hsub⟩ := hall
  rw [heq]
  exact {
    alternate := halternate
    last := by rw [hhead, lastEdge, hout]; rfl
    once := honce
    known := fun r hr => ⟨hout, (List.mem_cons.1 (hsub hr)).elim
      (fun hr => hr ▸ List.mem_cons_self) fun hr => List.mem_cons_of_mem _ (h.known r hr).2⟩
    fresh := fun hfalse => absurd hfalse (by simp)
    low := h.low
    high := h.high }

theorem Inv.connect {s : ReceiverRun} (h : Inv s) (hout : s.phase.inSession = false)
    (name : String) {phase : RunPhase} (hphase : phase.inSession = true) {backoff : ℕ}
    (hlow : receiverBackoffMin ≤ backoff) (hhigh : backoff ≤ receiverBackoffMax) :
    Inv ({ s with phase := phase, backoff := backoff }.publish ⟨.connected, name, false⟩) where
  alternate := by
    refine edges_cons h.alternate ?_
    rw [h.last, lastEdge, hout]
    cases s.downReported <;> simp
  last := by
    rw [lastEdge]
    exact (if_pos hphase).symm
  once := by
    rw [publish, OncePerOutage.cons_iff, reported_connected rfl]
    exact ⟨h.once, .nil⟩
  known r hr := by simp [publish, reported_connected] at hr
  fresh := h.fresh
  low := hlow
  high := hhigh

/-- The end of a session is an edge, after at most an error, and no reason of an outage. -/
theorem tearDown_eq (s : ReceiverRun) (how : SessionEnd) :
    ∃ errors, (∀ n ∈ errors, n.topic = .error ∧ n.opening = false) ∧
      s.tearDown how = { s with
        downReported := true
        openFailures := []
        news := ⟨.disconnected, how.reason, false⟩ :: (errors ++ s.news) } := by
  unfold tearDown
  split
  · exact ⟨[⟨.error, how.reason, false⟩], by simp, rfl⟩
  · exact ⟨[], by simp, rfl⟩

theorem errors_append {errors : List ReceiverNews} (news : List ReceiverNews)
    (h : ∀ n ∈ errors, n.topic = .error ∧ n.opening = false) :
    edges (errors ++ news) = edges news ∧ reported (errors ++ news) = reported news ∧
      (OncePerOutage news → OncePerOutage (errors ++ news)) := by
  induction errors with
  | nil => exact ⟨rfl, rfl, id⟩
  | cons n errors ih =>
    obtain ⟨⟨htopic, hopening⟩, hrest⟩ := List.forall_mem_cons.1 h
    obtain ⟨hedges, hreported, honce⟩ := ih hrest
    have hcons : reported (n :: (errors ++ news)) = reported (errors ++ news) := by
      rw [reported_cons (by simp [htopic]), hopening]
      rfl
    refine ⟨?_, hcons.trans hreported, fun hnews => ?_⟩
    · rw [← hedges]
      simp [edges, edge, htopic]
    · exact OncePerOutage.cons_iff.2 ⟨honce hnews, hcons ▸ (honce hnews).nodup⟩

theorem Inv.tearDown {s : ReceiverRun} (h : Inv s) (hin : s.phase.inSession = true)
    (how : SessionEnd) {phase : RunPhase} (hphase : phase.inSession = false) :
    Inv { s.tearDown how with phase := phase } := by
  obtain ⟨errors, herrors, heq⟩ := tearDown_eq s how
  obtain ⟨hedges, hreported, honce⟩ := errors_append s.news herrors
  have hnone : reported s.news = [] := List.eq_nil_iff_forall_not_mem.2 fun r hr =>
    Bool.false_ne_true ((h.known r hr).1.symm.trans hin)
  have hall : reported (⟨.disconnected, how.reason, false⟩ :: (errors ++ s.news)) = [] := by
    rw [reported_cons (by simp), hreported, hnone]
    rfl
  have hlast : (edges s.news).head? = some true := by rw [h.last, lastEdge, if_pos hin]
  rw [heq]
  exact {
    alternate := edges_cons (hedges ▸ h.alternate) (by simp [hedges, hlast])
    last := by rw [lastEdge, hphase]; rfl
    once := OncePerOutage.cons_iff.2 ⟨honce h.once, hall ▸ .nil⟩
    known := fun r hr => absurd (hall ▸ hr) List.not_mem_nil
    fresh := fun _ => rfl
    low := h.low
    high := h.high }

/-- A change of the phase, in or out of the session as before, of the backoff, and of what is
configured. -/
theorem Inv.phase {s : ReceiverRun} (h : Inv s) {phase : RunPhase}
    (hphase : phase.inSession = s.phase.inSession) {backoff : ℕ}
    (hlow : receiverBackoffMin ≤ backoff) (hhigh : backoff ≤ receiverBackoffMax) (once : Bool) :
    Inv { s with phase := phase, backoff := backoff, configuredOnce := once } where
  alternate := h.alternate
  last := by rw [h.last, lastEdge, lastEdge, hphase]
  once := h.once
  known r hr := ⟨hphase.trans (h.known r hr).1, (h.known r hr).2⟩
  fresh := h.fresh
  low := hlow
  high := hhigh

theorem widened_mem {b : ℕ} (h : receiverBackoffMin ≤ b) :
    receiverBackoffMin ≤ min (b * 2) receiverBackoffMax ∧
      min (b * 2) receiverBackoffMax ≤ receiverBackoffMax := by
  unfold receiverBackoffMin receiverBackoffMax at *
  omega

theorem inv_step {strict : Bool} {s s' : ReceiverRun} {e : RunEvent} (h : Inv s)
    (hs : s.step strict e = some s') : Inv s' := by
  cases e with
  | openFailed reason retry =>
    obtain ⟨hphase, hs⟩ := Option.ite_none_right_eq_some.1 hs
    obtain rfl := Option.some.inj hs
    have hout : s.phase.inSession = false := by rw [hphase]; rfl
    have hr := h.reportOpenFailure hout reason
    exact hr.phase (by rw [(reportOpenFailure_rest s reason).1, hout]; rfl) hr.low hr.high _
  | connect name configuring =>
    obtain ⟨hphase, hs⟩ := Option.ite_none_right_eq_some.1 hs
    obtain rfl := Option.some.inj hs
    have hout : s.phase.inSession = false := by rw [hphase]; rfl
    cases configuring with
    | true => exact h.connect hout name rfl h.low h.high
    | false =>
      have hmin : receiverBackoffMin ≤ receiverBackoffMax := by decide
      exact h.connect hout name rfl (le_refl receiverBackoffMin) hmin
  | configured =>
    obtain ⟨hphase, hs⟩ := Option.ite_none_right_eq_some.1 hs
    obtain rfl := Option.some.inj hs
    exact h.phase (by rw [hphase]; rfl) le_rfl (by decide) true
  | drop how stop =>
    obtain ⟨hin, hs⟩ := Option.ite_none_right_eq_some.1 hs
    obtain rfl := Option.some.inj hs
    exact h.tearDown hin how (by split <;> rfl)
  | slept =>
    simp only [step] at hs
    split at hs
    next hphase =>
      obtain rfl := Option.some.inj hs
      obtain ⟨hlow, hhigh⟩ := widened_mem h.low
      exact h.phase (by rw [hphase]; rfl) hlow hhigh _
    next hphase =>
      obtain rfl := Option.some.inj hs
      exact h.phase (by rw [hphase]; rfl) h.low h.high _
    next => exact absurd hs (by simp)
  | leave =>
    simp only [step] at hs
    split at hs
    next hphase =>
      obtain rfl := Option.some.inj hs
      exact h.phase (by rw [hphase]; rfl) h.low h.high _
    next hphase =>
      obtain rfl := Option.some.inj hs
      exact h.phase (by rw [hphase]; rfl) h.low h.high _
    next => exact absurd hs (by simp)

/-! ## The reports and the backoff -/

/-- What a step does to the backoff. -/
theorem backoff_step {strict : Bool} {s s' : ReceiverRun} {e : RunEvent}
    (hs : s.step strict e = some s') : s'.backoff =
      if e.establishes then receiverBackoffMin
      else if e = .slept ∧ s.phase = .sleeping none then min (s.backoff * 2) receiverBackoffMax
      else s.backoff := by
  cases e with
  | openFailed reason retry =>
    obtain ⟨-, hs⟩ := Option.ite_none_right_eq_some.1 hs
    obtain rfl := Option.some.inj hs
    simpa [RunEvent.establishes] using (reportOpenFailure_rest s reason).2
  | connect name configuring =>
    obtain ⟨-, hs⟩ := Option.ite_none_right_eq_some.1 hs
    obtain rfl := Option.some.inj hs
    cases configuring <;> simp [RunEvent.establishes, publish]
  | configured =>
    obtain ⟨-, hs⟩ := Option.ite_none_right_eq_some.1 hs
    obtain rfl := Option.some.inj hs
    rfl
  | drop how stop =>
    obtain ⟨-, hs⟩ := Option.ite_none_right_eq_some.1 hs
    obtain rfl := Option.some.inj hs
    obtain ⟨errors, -, heq⟩ := tearDown_eq s how
    simp [RunEvent.establishes, heq]
  | slept =>
    simp only [step] at hs
    split at hs
    next hphase =>
      obtain rfl := Option.some.inj hs
      simp [RunEvent.establishes, hphase]
    next hphase =>
      obtain rfl := Option.some.inj hs
      simp [RunEvent.establishes, hphase]
    next => exact absurd hs (by simp)
  | leave =>
    simp only [step] at hs
    split at hs
    next => obtain rfl := Option.some.inj hs; simp [RunEvent.establishes]
    next => obtain rfl := Option.some.inj hs; simp [RunEvent.establishes]
    next => exact absurd hs (by simp)

theorem inv_of_reachable {strict : Bool} {s : ReceiverRun}
    (h : Reachable (step strict) {} s) : Inv s :=
  h.invariant Inv inv_init fun _ _ _ _ ht hs => inv_step ht hs

/-- In every state of a run, whatever fails : connects and disconnects alternate, no reason is
reported twice in an outage, and the backoff is in its bounds. It is doubled, up to the bound, by
each sleep on it, and gets back to the minimum, or changes at all otherwise, only by a session that
is established. -/
theorem outages_reported {strict : Bool} {s : ReceiverRun} (h : Reachable (step strict) {} s) :
    (edges s.news).IsChain (· ≠ ·) ∧ OncePerOutage s.news ∧
      (receiverBackoffMin ≤ s.backoff ∧ s.backoff ≤ receiverBackoffMax) ∧
      ∀ e s', s.step strict e = some s' →
        (e = .slept → s.phase = .sleeping none →
          s'.backoff = min (s.backoff * 2) receiverBackoffMax) ∧
        (s'.backoff = receiverBackoffMin → s.backoff ≠ receiverBackoffMin →
          e.establishes = true) ∧
        (s'.backoff ≠ s.backoff →
          e.establishes = true ∨ e = .slept ∧ s.phase = .sleeping none) := by
  have hinv := inv_of_reachable h
  refine ⟨hinv.alternate, hinv.once, ⟨hinv.low, hinv.high⟩, fun e s' hs => ?_⟩
  have hback := backoff_step hs
  refine ⟨fun he hphase => ?_, fun hmin hne => ?_, fun hne => ?_⟩
  · subst he
    simpa [RunEvent.establishes, hphase] using hback
  · by_contra hnot
    rw [if_neg hnot, hmin] at hback
    split at hback
    · have hlow := hinv.low
      simp only [receiverBackoffMin, receiverBackoffMax] at hback hlow
      omega
    · exact hne hback.symm
  · by_contra hnot
    obtain ⟨hnot, hnot'⟩ := not_or.1 hnot
    rw [if_neg hnot, if_neg hnot'] at hback
    exact hne hback

/-- Two reasons before the first session, which is refused, and one of them after it. -/
def refusedEvents : List RunEvent :=
  [.openFailed "no receiver" (some 5), .slept, .openFailed "busy" none, .slept,
    .connect "ttyACM0" true, .drop (.profileError "refused") false, .slept,
    .openFailed "busy" none]

def refusedRun : ReceiverRun where
  phase := .sleeping none
  backoff := 4
  downReported := true
  openFailures := ["busy"]
  news :=
    [⟨.disconnected, "refused", false⟩, ⟨.error, "refused", false⟩,
      ⟨.connected, "ttyACM0", false⟩, ⟨.error, "busy", true⟩,
      ⟨.disconnected, "no receiver", true⟩]

theorem outages_reported_refused :
    run (step false) {} refusedEvents = some refusedRun ∧
      (edges refusedRun.news).IsChain (· ≠ ·) ∧ OncePerOutage refusedRun.news :=
  have hreach : Reachable (step false) {} refusedRun := ⟨refusedEvents, by decide⟩
  ⟨by decide, (outages_reported hreach).1, (outages_reported hreach).2.1⟩

end ReceiverRun

end Mtrtk
