import Mathlib.Algebra.Order.Ring.Rat
import Mathlib.Logic.Function.Basic
import Mtrtk.NmeaFraming
import Mtrtk.Run

/-!
# The NMEA publisher

`NmeaPublisher` of `rover/nmea_out.py` : for every epoch the selected sentences go to every sink. A
sink that fails to start or to write is set aside, and is started again `SINK_RETRY_S` later.

A step is what `run` does between two awaits : a sink answers a call, an epoch comes, the loop ends,
or the task is cancelled. `Publisher.log` is all that happened. What a sink sees of it (`view`), its
own calls and what was published, is a run of the protocol of one sink (`SinkState.step`) :
`sink_protocol`.

A cancellation before the `try` of `run` or in its `finally` leaves sinks open that the next run
starts once more (`opened_twice`).
-/

namespace Mtrtk

namespace Nmea

/-! ## The publisher -/

/-- `SINK_RETRY_S`. -/
def sinkRetryS : ℚ := 10

/-- How a call of a sink ends : it returns, it raises at some time, or a cancellation cuts it
short. -/
inductive Answer
  | ok
  | failed (time : ℚ)
  | cut
  deriving DecidableEq

/-- A call of a sink. `retry` is the time of the epoch that a start is tried again in. -/
inductive SinkCall
  | start (retry : Option ℚ) (answer : Answer)
  | write (payload : List UInt8) (answer : Answer)
  | close
  deriving DecidableEq

/-- What the publisher is made with. -/
structure Selection (ι α : Type*) where
  sinks : List ι
  nodup : sinks.Nodup
  /-- The joined `build_sentences` of an epoch. -/
  build : α → Bool → List UInt8
  slowIntervalS : ℚ

/-- What happens : `run` is called, an epoch goes out, a sink is called. -/
inductive Entry (ι α : Type*)
  | run
  | published (now : ℚ) (epoch : α) (slow : Bool)
  | call (sink : ι) (c : SinkCall)
  deriving DecidableEq

/-- What `run` waits for : the answer of the first of the sinks left in a loop, an epoch, or in its
`finally` the waiter, and the sink that is closed before these. -/
inductive Pc (ι α : Type*)
  | ended
  | starting (rest : List ι)
  | waiting
  | retrying (rest : List ι) (now : ℚ) (epoch : α)
  | writing (rest : List ι) (now : ℚ) (payload : List UInt8)
  | closing (rest : List ι) (now : ℚ) (payload : List UInt8)
  | gathering
  | shutting (rest : List ι)
  deriving DecidableEq

/-- `NmeaPublisher`. -/
structure Publisher (ι α : Type*) where
  pc : Pc ι α := .ended
  active : List ι := []
  failed : ι → Option ℚ := fun _ => none
  lastSlow : Option ℚ := none
  sent : ℕ := 0
  log : List (Entry ι α) := []

/-- What happens next. -/
inductive PublisherEvent (α : Type*)
  | run
  | started (failed : Option ℚ)
  | epoch (now : ℚ) (epoch : α)
  | wrote (failed : Bool)
  | closed
  | stop
  | gathered
  | cancel

namespace Publisher

variable {ι α : Type*} [DecidableEq ι]

/-- The loop over `sinks` in `run`, at these. -/
def startLoop (p : Publisher ι α) : List ι → Publisher ι α
  | [] => { p with pc := .waiting }
  | i :: rest => { p with pc := .starting (i :: rest) }

/-- The loop over `_active` in `_publish`, at these. -/
def writeLoop (p : Publisher ι α) (now : ℚ) (payload : List UInt8) : List ι → Publisher ι α
  | [] => { p with sent := p.sent + 1, pc := .waiting }
  | i :: rest => { p with pc := .writing (i :: rest) now payload }

/-- The publisher with one more entry. -/
def note (p : Publisher ι α) (e : Entry ι α) : Publisher ι α := { p with log := p.log ++ [e] }

/-- The end of `_start`. -/
def started (p : Publisher ι α) (i : ι) (retry : Option ℚ) : Option ℚ → Publisher ι α
  | none =>
    { p.note (.call i (.start retry .ok)) with
      failed := Function.update p.failed i none
      active := p.active ++ [i] }
  | some time =>
    { p.note (.call i (.start retry (.failed time))) with
      failed := Function.update p.failed i (some (time + sinkRetryS)) }

/-- The rest of `_publish`, once the failed sinks have been tried. -/
def publish (c : Selection ι α) (p : Publisher ι α) (now : ℚ) (epoch : α) : Publisher ι α :=
  let slow := p.lastSlow.all fun last => c.slowIntervalS ≤ now - last
  let payload := c.build epoch slow
  if payload = [] then { p with pc := .waiting }
  else
    let p' := { p.note (.published now epoch slow) with
      lastSlow := if slow then some now else p.lastSlow }
    p'.writeLoop now payload p'.active

/-- The loop of `_retry_failed`, at these, and what comes behind it. -/
def retryLoop (c : Selection ι α) (p : Publisher ι α) (now : ℚ) (epoch : α) :
    List ι → Publisher ι α
  | [] => p.publish c now epoch
  | i :: rest =>
    if (p.failed i).any fun due => due ≤ now then { p with pc := .retrying (i :: rest) now epoch }
    else p.retryLoop c now epoch rest

/-- The `finally` of `run`, up to the end of the waiter. -/
def finish (p : Publisher ι α) : Publisher ι α := { p with pc := .gathering }

/-- The loop of the `finally`, at these. -/
def shutLoop (p : Publisher ι α) : List ι → Publisher ι α
  | [] => { p with pc := .ended, active := [] }
  | i :: rest => { p.note (.call i .close) with pc := .shutting rest }

/-- One step of `run`, `none` where the event cannot happen. Before its `try`, and in its `finally`,
a cancellation leaves everything as it is. -/
def step (c : Selection ι α) (p : Publisher ι α) : PublisherEvent α → Option (Publisher ι α)
  | .run =>
    match p.pc with
    | .ended =>
      let p' := { p.note .run with active := [], failed := fun _ => none }
      some (p'.startLoop c.sinks)
    | _ => none
  | .started failed =>
    match p.pc with
    | .starting (i :: rest) => some ((p.started i none failed).startLoop rest)
    | .retrying (i :: rest) now epoch =>
      some ((p.started i (some now) failed).retryLoop c now epoch rest)
    | _ => none
  | .epoch now epoch =>
    match p.pc with
    | .waiting => some (p.retryLoop c now epoch c.sinks)
    | _ => none
  | .wrote failed =>
    match p.pc with
    | .writing (i :: rest) now payload =>
      if failed then
        some { (p.note (.call i (.write payload (.failed now)))).note (.call i .close) with
          active := p.active.erase i
          failed := Function.update p.failed i (some (now + sinkRetryS))
          pc := .closing rest now payload }
      else some ((p.note (.call i (.write payload .ok))).writeLoop now payload rest)
    | _ => none
  | .closed =>
    match p.pc with
    | .closing rest now payload => some (p.writeLoop now payload rest)
    | .shutting rest => some (p.shutLoop rest)
    | _ => none
  | .stop =>
    match p.pc with
    | .waiting => some p.finish
    | _ => none
  | .gathered =>
    match p.pc with
    | .gathering => some (p.shutLoop p.active)
    | _ => none
  | .cancel =>
    match p.pc with
    | .starting (i :: _) => some { p.note (.call i (.start none .cut)) with pc := .ended }
    | .waiting | .closing _ _ _ => some p.finish
    | .retrying (i :: _) now _ => some (p.note (.call i (.start (some now) .cut))).finish
    | .writing (i :: _) _ payload => some (p.note (.call i (.write payload .cut))).finish
    | .gathering | .shutting _ => some { p with pc := .ended }
    | _ => none

/-- `run` is cancelled only between its `try` and its `finally`. -/
def unhurried (p : Publisher ι α) : PublisherEvent α → Bool
  | .cancel => match p.pc with
    | .starting _ | .gathering | .shutting _ => false
    | _ => true
  | _ => true

end Publisher

/-! ## The protocol of a sink -/

/-- What a sink sees of the publisher. -/
inductive Sight
  | run
  | published (now : ℚ) (payload : List UInt8)
  | call (c : SinkCall)
  deriving DecidableEq

/-- What the sinks see of an entry. -/
def Entry.sight {ι α : Type*} [DecidableEq ι] (c : Selection ι α) (i : ι) :
    Entry ι α → Option Sight
  | .run => some .run
  | .published now epoch slow => some (.published now (c.build epoch slow))
  | .call j k => if j = i then some (.call k) else none

/-- What a sink sees of a log. -/
def view {ι α : Type*} [DecidableEq ι] (c : Selection ι α) (i : ι) (log : List (Entry ι α)) :
    List Sight := log.filterMap (Entry.sight c i)

/-- Where a sink is : closed, to be started by `run`, set aside until some time, open, open with a
payload still to be written, failed to write, or cut short at it. -/
inductive SinkState
  | closed
  | begun
  | aside (due : ℚ)
  | opened
  | owed (now : ℚ) (payload : List UInt8)
  | broken (now : ℚ)
  | left
  deriving DecidableEq

/-- The protocol of a sink. It is started when `run` begins, or when it is set aside and its time
has come. While it is open it gets each payload that is published, once, before the next. It is
closed when it fails to write, and when `run` ends. -/
def SinkState.step : SinkState → Sight → Option SinkState
  | .closed, .run | .aside _, .run => some .begun
  | .begun, .call (.start none .ok) => some .opened
  | .begun, .call (.start none (.failed time)) => some (.aside (time + sinkRetryS))
  | .aside due, .call (.start (some now) answer) =>
    if due ≤ now then
      match answer with
      | .ok => some .opened
      | .failed time => some (.aside (time + sinkRetryS))
      | .cut => some .closed
    else none
  | .aside due, .published _ _ => some (.aside due)
  | .opened, .published now payload => some (.owed now payload)
  | .owed now payload, .call (.write data answer) =>
    if data = payload then
      match answer with
      | .ok => some .opened
      | .failed _ => some (.broken now)
      | .cut => some .left
    else none
  | .owed _ _, .call .close | .opened, .call .close | .left, .call .close => some .closed
  | .broken now, .call .close => some (.aside (now + sinkRetryS))
  | _, _ => none

/-- Payloads that go out, each written before the next goes out. -/
def delivered (pubs : List (ℚ × List UInt8)) : List Sight :=
  pubs.flatMap fun pub => [.published pub.1 pub.2, .call (.write pub.2 .ok)]

theorem SinkState.opened_of_step {q : SinkState} {e : Sight} (h : q.step e = some .opened) :
    (∃ retry, e = .call (.start retry .ok)) ∨
      ∃ now payload, q = .owed now payload ∧ e = .call (.write payload .ok) := by
  unfold SinkState.step at h
  split at h
  case h_5 due now answer =>
    split_ifs at h
    cases answer <;> simp at h ⊢
  case h_8 now payload data answer =>
    split_ifs at h with hdata
    cases answer <;> simp [hdata] at h ⊢
  all_goals simp at h ⊢

theorem SinkState.owed_of_step {q : SinkState} {e : Sight} {now : ℚ} {payload : List UInt8}
    (h : q.step e = some (.owed now payload)) : q = .opened ∧ e = .published now payload := by
  unfold SinkState.step at h
  split at h
  case h_5 due now answer =>
    split_ifs at h
    cases answer <;> simp at h
  case h_8 now payload data answer =>
    split_ifs at h
    cases answer <;> simp at h
  all_goals simp at h ⊢
  exact h

/-- A sink that is open has got all that went out since it was last started, up to what is still to
be written. -/
theorem SinkState.delivers {es : List Sight} {q : SinkState}
    (h : run SinkState.step .closed es = some q) :
    match q with
    | .opened => ∃ before retry pubs, es = before ++ .call (.start retry .ok) :: delivered pubs
    | .owed now payload => ∃ before retry pubs,
      es = before ++ .call (.start retry .ok) :: (delivered pubs ++ [.published now payload])
    | _ => True := by
  induction es using List.reverseRecOn generalizing q with
  | nil =>
    obtain rfl := Option.some.inj h
    trivial
  | append_singleton es e ih =>
    rw [run_append] at h
    obtain ⟨q₀, h₀, hrun⟩ := Option.bind_eq_some_iff.1 h
    have hstep : SinkState.step q₀ e = some q := by simpa [run] using hrun
    have hq₀ := ih h₀
    cases q with
    | opened =>
      rcases opened_of_step hstep with ⟨retry, rfl⟩ | ⟨now, payload, rfl, rfl⟩
      · exact ⟨es, retry, [], rfl⟩
      · obtain ⟨before, retry, pubs, rfl⟩ := hq₀
        exact ⟨before, retry, pubs ++ [(now, payload)], by simp [delivered]⟩
    | owed now payload =>
      obtain ⟨rfl, rfl⟩ := owed_of_step hstep
      obtain ⟨before, retry, pubs, rfl⟩ := hq₀
      exact ⟨before, retry, pubs, by simp⟩
    | closed | begun | aside | broken | left => trivial

/-! ## The protocol is kept -/

namespace Publisher

variable {ι α : Type*} [DecidableEq ι] {c : Selection ι α} {p p' : Publisher ι α} {i j : ι}
  {q q' : SinkState} {rest : List ι} {now : ℚ} {payload : List UInt8}

/-- The protocol brings the sink to this state. -/
def Sees (c : Selection ι α) (p : Publisher ι α) (i : ι) (q : SinkState) : Prop :=
  Mtrtk.run SinkState.step .closed (view c i p.log) = some q

/-- Every sink is in a state that is fit for it. -/
def All (c : Selection ι α) (p : Publisher ι α) (P : ι → SinkState → Prop) : Prop :=
  ∀ i ∈ c.sinks, ∃ q, p.Sees c i q ∧ P i q

/-- A sink outside the loops : open, or set aside. -/
def Settled (active : List ι) (failed : ι → Option ℚ) (i : ι) (q : SinkState) : Prop :=
  i ∈ active ∧ failed i = none ∧ q = .opened ∨
    i ∉ active ∧ ∃ due, failed i = some due ∧ q = .aside due

/-- A sink in the loop of `_publish`. -/
def Owing (active : List ι) (failed : ι → Option ℚ) (rest : List ι) (now : ℚ)
    (payload : List UInt8) (i : ι) (q : SinkState) : Prop :=
  if i ∈ rest then failed i = none ∧ q = .owed now payload else Settled active failed i q

/-- A sink in the loop of `run`. -/
def Beginning (active : List ι) (failed : ι → Option ℚ) (rest : List ι) (i : ι) (q : SinkState) :
    Prop :=
  if i ∈ rest then q = .begun else Settled active failed i q

variable {active active' : List ι} {failed failed' : ι → Option ℚ}

theorem owing_of_mem (h : i ∈ rest) :
    Owing active failed rest now payload i q ↔ failed i = none ∧ q = .owed now payload := by
  rw [Owing, if_pos h]

theorem owing_of_notMem (h : i ∉ rest) :
    Owing active failed rest now payload i q ↔ Settled active failed i q := by
  rw [Owing, if_neg h]

theorem beginning_of_mem (h : i ∈ rest) : Beginning active failed rest i q ↔ q = .begun := by
  rw [Beginning, if_pos h]

theorem beginning_of_notMem (h : i ∉ rest) :
    Beginning active failed rest i q ↔ Settled active failed i q := by
  rw [Beginning, if_neg h]

omit [DecidableEq ι] in
/-- What becomes of other sinks does not matter. -/
theorem Settled.congr (h : Settled active failed i q) (hactive : i ∈ active' ↔ i ∈ active)
    (hfailed : failed' i = failed i) : Settled active' failed' i q := by
  rwa [Settled, hactive, hfailed]

/-- A sink that is not open. -/
def Shut (q : SinkState) : Prop := q = .closed ∨ ∃ due, q = .aside due

/-- A sink that is still to be closed, or that is closed. -/
def Closable (rest : List ι) (i : ι) (q : SinkState) : Prop :=
  if i ∈ rest then q.step (.call .close) = some .closed else Shut q

/-- What the sinks' states are while `run` waits. -/
def Fits (c : Selection ι α) (p : Publisher ι α) : Prop :=
  match p.pc with
  | .ended => p.All c fun _ q => Shut q
  | .starting rest =>
    rest.Nodup ∧ (∀ i ∈ rest, i ∉ p.active) ∧ p.All c (Beginning p.active p.failed rest)
  | .waiting => p.All c (Settled p.active p.failed)
  | .retrying rest now _ =>
    rest ⊆ c.sinks ∧ (∀ i ∈ rest.head?, (p.failed i).any (· ≤ now)) ∧
      p.All c (Settled p.active p.failed)
  | .writing rest now payload | .closing rest now payload =>
    rest.Nodup ∧ rest ⊆ p.active ∧ p.All c (Owing p.active p.failed rest now payload)
  | .gathering => p.All c (Closable p.active)
  | .shutting rest => rest.Nodup ∧ p.All c (Closable rest)

/-- What holds of every publisher that `run` brings about. -/
structure Inv (c : Selection ι α) (p : Publisher ι α) : Prop where
  nodup : p.active.Nodup
  fits : p.Fits c

theorem view_append (c : Selection ι α) (i : ι) (log log' : List (Entry ι α)) :
    view c i (log ++ log') = view c i log ++ view c i log' := List.filterMap_append

/-- An entry that the sink does not see. -/
theorem Sees.unseen {e : Entry ι α} (h : p.Sees c i q) (he : e.sight c i = none)
    (hlog : p'.log = p.log ++ [e]) : p'.Sees c i q := by
  have hview : view c i [e] = [] := by simp [view, he]
  rwa [Sees, hlog, view_append, hview, List.append_nil]

/-- An entry that the sink sees. -/
theorem Sees.seen {e : Entry ι α} {x : Sight} (h : p.Sees c i q) (he : e.sight c i = some x)
    (hstep : q.step x = some q') (hlog : p'.log = p.log ++ [e]) : p'.Sees c i q' := by
  have hview : view c i [e] = [x] := by simp [view, he]
  rw [Sees, hlog, view_append, hview, run_append, h]
  simp [Mtrtk.run, hstep]

theorem sight_call (c : Selection ι α) (i : ι) (k : SinkCall) :
    (Entry.call i k : Entry ι α).sight c i = some (.call k) := if_pos rfl

theorem sight_other (c : Selection ι α) (h : j ≠ i) (k : SinkCall) :
    (Entry.call j k : Entry ι α).sight c i = none := if_neg h

/-- What is fit is fit for the same log. -/
theorem All.mono {P Q : ι → SinkState → Prop} (h : p.All c P) (hlog : p'.log = p.log)
    (hPQ : ∀ i q, P i q → Q i q) : p'.All c Q := by
  intro i hi
  obtain ⟨q, hsees, hP⟩ := h i hi
  refine ⟨q, ?_, hPQ i q hP⟩
  rwa [Sees, hlog]

/-- A call of one sink. -/
theorem All.call {P Q : ι → SinkState → Prop} {k : SinkCall} (h : p.All c P)
    (hlog : p'.log = p.log ++ [.call i k])
    (hown : ∀ q, P i q → ∃ q', q.step (.call k) = some q' ∧ Q i q')
    (hother : ∀ j q, j ≠ i → P j q → Q j q) : p'.All c Q := by
  intro j hj
  obtain ⟨q, hsees, hP⟩ := h j hj
  rcases eq_or_ne j i with rfl | hne
  · obtain ⟨q', hstep, hQ⟩ := hown q hP
    exact ⟨q', hsees.seen (sight_call c j k) hstep hlog, hQ⟩
  · exact ⟨q, hsees.unseen (sight_other c hne.symm k) hlog, hother j q hne hP⟩

theorem inv_startLoop (hactive : p.active.Nodup) (hrest : rest.Nodup)
    (happart : ∀ i ∈ rest, i ∉ p.active) (h : p.All c (Beginning p.active p.failed rest)) :
    (p.startLoop rest).Inv c := by
  cases rest with
  | nil => exact ⟨hactive, h.mono rfl fun i q hq => hq⟩
  | cons i rest => exact ⟨hactive, hrest, happart, h.mono rfl fun i q hq => hq⟩

theorem inv_writeLoop (hactive : p.active.Nodup) (hrest : rest.Nodup) (hsub : rest ⊆ p.active)
    (h : p.All c (Owing p.active p.failed rest now payload)) :
    (p.writeLoop now payload rest).Inv c := by
  cases rest with
  | nil => exact ⟨hactive, h.mono rfl fun i q hq => hq⟩
  | cons i rest => exact ⟨hactive, hrest, hsub, h.mono rfl fun i q hq => hq⟩

theorem inv_publish {epoch : α} (hactive : p.active.Nodup)
    (h : p.All c (Settled p.active p.failed)) : (p.publish c now epoch).Inv c := by
  unfold publish
  dsimp only
  split
  · exact ⟨hactive, h.mono rfl fun i q hq => hq⟩
  · refine inv_writeLoop hactive hactive (List.Subset.refl _) fun i hi => ?_
    obtain ⟨q, hsees, hq⟩ := h i hi
    rcases hq with ⟨hmem, hnone, rfl⟩ | ⟨hmem, due, hdue, rfl⟩
    · exact ⟨_, hsees.seen rfl rfl rfl, (owing_of_mem hmem).2 ⟨hnone, rfl⟩⟩
    · exact ⟨_, hsees.seen rfl rfl rfl, (owing_of_notMem hmem).2 (Or.inr ⟨hmem, due, hdue, rfl⟩)⟩

theorem inv_retryLoop {epoch : α} (hactive : p.active.Nodup) (hrest : rest ⊆ c.sinks)
    (h : p.All c (Settled p.active p.failed)) : (p.retryLoop c now epoch rest).Inv c := by
  induction rest with
  | nil => exact inv_publish hactive h
  | cons i rest ih =>
    rw [retryLoop]
    split
    · next hdue =>
      refine ⟨hactive, hrest, fun j hj => ?_, h.mono rfl fun i q hq => hq⟩
      obtain rfl : i = j := Option.some.inj hj
      exact hdue
    · exact ih (List.subset_of_cons_subset hrest)

/-- The answer to a start, of a sink that the protocol lets start. -/
theorem settled_started {retry : Option ℚ} {time : Option ℚ} (happart : i ∉ p.active)
    (h : p.Sees c i q)
    (hok : q.step (.call (.start retry .ok)) = some .opened)
    (hfailed : ∀ time, q.step (.call (.start retry (.failed time))) =
      some (.aside (time + sinkRetryS))) :
    ∃ q', (p.started i retry time).Sees c i q' ∧
      Settled (p.started i retry time).active (p.started i retry time).failed i q' := by
  cases time with
  | none =>
    refine ⟨_, h.seen (sight_call c i _) hok rfl, Or.inl ⟨?_, ?_, rfl⟩⟩
    · exact List.mem_append_right _ (List.mem_singleton_self i)
    · exact Function.update_self ..
  | some time =>
    refine ⟨_, h.seen (sight_call c i _) (hfailed time) rfl, Or.inr ⟨happart, _, ?_, rfl⟩⟩
    exact Function.update_self ..

/-- The answer to a start leaves the other sinks. -/
theorem started_other {retry : Option ℚ} {time : Option ℚ} (hne : j ≠ i) :
    (p.Sees c j q → (p.started i retry time).Sees c j q) ∧
      (j ∈ (p.started i retry time).active ↔ j ∈ p.active) ∧
        (p.started i retry time).failed j = p.failed j := by
  cases time with
  | none =>
    refine ⟨fun h => h.unseen (sight_other c hne.symm _) rfl, ?_, Function.update_of_ne hne ..⟩
    simp [started, note, hne]
  | some time =>
    exact ⟨fun h => h.unseen (sight_other c hne.symm _) rfl, Iff.rfl, Function.update_of_ne hne ..⟩

theorem nodup_started {retry : Option ℚ} {time : Option ℚ} (hactive : p.active.Nodup)
    (happart : i ∉ p.active) : (p.started i retry time).active.Nodup := by
  cases time with
  | none => exact hactive.append (List.nodup_singleton i) (by simpa using happart)
  | some time => exact hactive

theorem inv_starting {time : Option ℚ} (hactive : p.active.Nodup) (hrest : (i :: rest).Nodup)
    (happart : ∀ j ∈ i :: rest, j ∉ p.active)
    (h : p.All c (Beginning p.active p.failed (i :: rest))) :
    ((p.started i none time).startLoop rest).Inv c := by
  obtain ⟨hi, hrest⟩ := List.nodup_cons.1 hrest
  have hown := happart i List.mem_cons_self
  refine inv_startLoop (nodup_started hactive hown) hrest (fun j hj => ?_) fun j hj => ?_
  · have hne : j ≠ i := fun heq => hi (heq ▸ hj)
    rw [(started_other hne (c := c) (q := .closed)).2.1]
    exact happart j (List.mem_cons_of_mem i hj)
  · obtain ⟨q, hsees, hq⟩ := h j hj
    rcases eq_or_ne j i with rfl | hne
    · obtain rfl := (beginning_of_mem List.mem_cons_self).1 hq
      have hok : SinkState.begun.step (.call (.start none .ok)) = some .opened := rfl
      obtain ⟨q', hsees', hq'⟩ := settled_started hown hsees hok fun _ => rfl
      exact ⟨q', hsees', (beginning_of_notMem hi).2 hq'⟩
    · obtain ⟨hsees', hmem, hfailed⟩ := started_other hne
      refine ⟨q, hsees' hsees, ?_⟩
      by_cases hj : j ∈ rest
      · exact (beginning_of_mem hj).2 ((beginning_of_mem (List.mem_cons_of_mem i hj)).1 hq)
      · have hq := (beginning_of_notMem (by simp [hne, hj])).1 hq
        exact (beginning_of_notMem hj).2 (hq.congr hmem hfailed)

omit [DecidableEq ι] in
/-- A sink whose time has come is not open, and may start. -/
theorem aside_of_due (hdue : (failed i).any (· ≤ now)) (h : Settled active failed i q) :
    i ∉ active ∧ ∃ due, due ≤ now ∧ q = .aside due := by
  rcases h with ⟨-, hnone, -⟩ | ⟨happart, due, hfailed, rfl⟩
  · simp [hnone] at hdue
  · exact ⟨happart, due, by simpa [hfailed] using hdue, rfl⟩

theorem inv_retrying {epoch : α} {time : Option ℚ} (hactive : p.active.Nodup)
    (hsub : i :: rest ⊆ c.sinks) (hdue : (p.failed i).any (· ≤ now))
    (h : p.All c (Settled p.active p.failed)) :
    ((p.started i (some now) time).retryLoop c now epoch rest).Inv c := by
  obtain ⟨q, hsees, hq⟩ := h i (hsub List.mem_cons_self)
  obtain ⟨happart, due, hle, rfl⟩ := aside_of_due hdue hq
  refine inv_retryLoop (nodup_started hactive happart) (List.subset_of_cons_subset hsub)
    fun j hj => ?_
  rcases eq_or_ne j i with rfl | hne
  · have hok : (SinkState.aside due).step (.call (.start (some now) .ok)) = some .opened := if_pos hle
    exact settled_started happart hsees hok fun _ => if_pos hle
  · obtain ⟨q, hsees, hq⟩ := h j hj
    obtain ⟨hsees', hmem, hfailed⟩ := started_other hne
    exact ⟨q, hsees' hsees, hq.congr hmem hfailed⟩

/-! ### The end of a run -/

theorem inv_finish (hactive : p.active.Nodup) (h : p.All c (Closable p.active)) :
    p.finish.Inv c :=
  ⟨hactive, h.mono rfl fun _ _ hq => hq⟩

theorem inv_shutLoop (hactive : p.active.Nodup) (hrest : rest.Nodup)
    (h : p.All c (Closable rest)) : (p.shutLoop rest).Inv c := by
  cases rest with
  | nil => exact ⟨List.nodup_nil, h.mono rfl fun i q hq => by simpa [Closable] using hq⟩
  | cons i rest =>
    obtain ⟨hi, hrest⟩ := List.nodup_cons.1 hrest
    refine ⟨hactive, hrest, h.call rfl (fun q hq => ?_) fun j q hne hq => ?_⟩
    · refine ⟨.closed, by simpa [Closable] using hq, ?_⟩
      rw [Closable, if_neg hi]
      exact Or.inl rfl
    · simpa [Closable, hne] using hq

theorem Settled.closable (h : Settled active failed i q) : Closable active i q := by
  rcases h with ⟨hmem, -, rfl⟩ | ⟨hmem, due, -, rfl⟩
  · rw [Closable, if_pos hmem]
    rfl
  · rw [Closable, if_neg hmem]
    exact Or.inr ⟨due, rfl⟩

theorem Owing.closable (hsub : rest ⊆ active) (h : Owing active failed rest now payload i q) :
    Closable active i q := by
  by_cases hmem : i ∈ rest
  · obtain ⟨-, rfl⟩ := (owing_of_mem hmem).1 h
    rw [Closable, if_pos (hsub hmem)]
    rfl
  · exact ((owing_of_notMem hmem).1 h).closable

/-! ### A step -/

theorem inv_run (h : p.All c fun _ q => Shut q) :
    ({ p.note .run with active := [], failed := fun _ => none }.startLoop c.sinks).Inv c := by
  refine inv_startLoop List.nodup_nil c.nodup (fun i hi => List.not_mem_nil) fun i hi => ?_
  obtain ⟨q, hsees, hq⟩ := h i hi
  refine ⟨.begun, ?_, (beginning_of_mem hi).2 rfl⟩
  rcases hq with rfl | ⟨due, rfl⟩
  · exact hsees.seen rfl rfl rfl
  · exact hsees.seen rfl rfl rfl

/-- A write that is done. -/
theorem inv_written (hactive : p.active.Nodup) (hrest : (i :: rest).Nodup)
    (hsub : i :: rest ⊆ p.active) (h : p.All c (Owing p.active p.failed (i :: rest) now payload)) :
    ((p.note (.call i (.write payload .ok))).writeLoop now payload rest).Inv c := by
  obtain ⟨hi, hrest⟩ := List.nodup_cons.1 hrest
  refine inv_writeLoop hactive hrest (List.subset_of_cons_subset hsub)
    (h.call rfl (fun q hq => ?_) fun j q hne hq => ?_)
  · obtain ⟨hnone, rfl⟩ := (owing_of_mem List.mem_cons_self).1 hq
    exact ⟨.opened, if_pos rfl,
      (owing_of_notMem hi).2 (Or.inl ⟨hsub List.mem_cons_self, hnone, rfl⟩)⟩
  · by_cases hj : j ∈ rest
    · exact (owing_of_mem hj).2 ((owing_of_mem (List.mem_cons_of_mem i hj)).1 hq)
    · exact (owing_of_notMem hj).2 ((owing_of_notMem (by simp [hne, hj])).1 hq)

/-- A write that fails. -/
theorem inv_broken (hactive : p.active.Nodup) (hrest : (i :: rest).Nodup)
    (hsub : i :: rest ⊆ p.active) (h : p.All c (Owing p.active p.failed (i :: rest) now payload)) :
    Inv c { (p.note (.call i (.write payload (.failed now)))).note (.call i .close) with
      active := p.active.erase i
      failed := Function.update p.failed i (some (now + sinkRetryS))
      pc := .closing rest now payload } := by
  obtain ⟨hi, hrest⟩ := List.nodup_cons.1 hrest
  have herase : ∀ j, j ≠ i → (j ∈ p.active.erase i ↔ j ∈ p.active) := fun j hne =>
    List.mem_erase_of_ne hne
  refine ⟨hactive.erase i, hrest, fun j hj => ?_, ?_⟩
  · have hne : j ≠ i := fun heq => hi (heq ▸ hj)
    exact (herase j hne).2 (hsub (List.mem_cons_of_mem i hj))
  · have hbroken : (p.note (.call i (.write payload (.failed now)))).All c fun j q =>
        if j = i then q = .broken now else Owing p.active p.failed (i :: rest) now payload j q := by
      refine h.call rfl (fun q hq => ?_) fun j q hne hq => (if_neg hne).symm ▸ hq
      obtain ⟨-, rfl⟩ := (owing_of_mem List.mem_cons_self).1 hq
      exact ⟨.broken now, if_pos rfl, (if_pos rfl).symm ▸ rfl⟩
    refine hbroken.call rfl (fun q hq => ?_) fun j q hne hq => ?_
    · rw [if_pos rfl] at hq
      obtain rfl := hq
      refine ⟨.aside (now + sinkRetryS), rfl, (owing_of_notMem hi).2 (Or.inr ⟨?_, _, ?_, rfl⟩)⟩
      · exact fun hmem => (hactive.mem_erase_iff.1 hmem).1 rfl
      · exact Function.update_self ..
    · rw [if_neg hne] at hq
      by_cases hj : j ∈ rest
      · obtain ⟨hnone, rfl⟩ := (owing_of_mem (List.mem_cons_of_mem i hj)).1 hq
        exact (owing_of_mem hj).2 ⟨(Function.update_of_ne hne ..).trans hnone, rfl⟩
      · have hq := (owing_of_notMem (by simp [hne, hj])).1 hq
        exact (owing_of_notMem hj).2 (hq.congr (herase j hne) (Function.update_of_ne hne ..))

theorem inv_cancelRetry (hactive : p.active.Nodup) (hdue : (p.failed i).any (· ≤ now))
    (h : p.All c (Settled p.active p.failed)) :
    (p.note (.call i (.start (some now) .cut))).finish.Inv c := by
  refine inv_finish hactive (h.call rfl (fun q hq => ?_) fun j q hne hq => hq.closable)
  obtain ⟨happart, due, hle, rfl⟩ := aside_of_due hdue hq
  refine ⟨.closed, if_pos hle, ?_⟩
  change Closable p.active i .closed
  rw [Closable, if_neg happart]
  exact Or.inl rfl

theorem inv_cancelWrite (hactive : p.active.Nodup) (hsub : i :: rest ⊆ p.active)
    (h : p.All c (Owing p.active p.failed (i :: rest) now payload)) :
    (p.note (.call i (.write payload .cut))).finish.Inv c := by
  refine inv_finish hactive (h.call rfl (fun q hq => ?_) fun j q hne hq => hq.closable hsub)
  obtain ⟨-, rfl⟩ := (owing_of_mem List.mem_cons_self).1 hq
  refine ⟨.left, if_pos rfl, ?_⟩
  change Closable p.active i .left
  rw [Closable, if_pos (hsub List.mem_cons_self)]
  rfl

theorem inv_step {e : PublisherEvent α} (h : p.Inv c)
    (hstep : guarded (step c) unhurried p e = some p') : p'.Inv c := by
  obtain ⟨hunhurried, hstep⟩ := guarded_eq_some.1 hstep
  obtain ⟨hactive, hfits⟩ := h
  cases hpc : p.pc with
  | ended =>
    rw [Fits, hpc] at hfits
    cases e with
    | run =>
      rw [step, hpc] at hstep
      obtain rfl := Option.some.inj hstep
      exact inv_run hfits
    | _ => simp [step, hpc] at hstep
  | starting rest =>
    rw [Fits, hpc] at hfits
    cases e with
    | started time =>
      cases rest with
      | nil => simp [step, hpc] at hstep
      | cons i rest =>
        rw [step, hpc] at hstep
        obtain rfl := Option.some.inj hstep
        exact inv_starting hactive hfits.1 hfits.2.1 hfits.2.2
    | cancel => simp [unhurried, hpc] at hunhurried
    | _ => simp [step, hpc] at hstep
  | waiting =>
    rw [Fits, hpc] at hfits
    cases e with
    | epoch now epoch =>
      rw [step, hpc] at hstep
      obtain rfl := Option.some.inj hstep
      exact inv_retryLoop hactive (List.Subset.refl _) hfits
    | stop | cancel =>
      rw [step, hpc] at hstep
      obtain rfl := Option.some.inj hstep
      exact inv_finish hactive fun i hi => (hfits i hi).imp fun q hq => ⟨hq.1, hq.2.closable⟩
    | _ => simp [step, hpc] at hstep
  | retrying rest now epoch =>
    rw [Fits, hpc] at hfits
    obtain ⟨hsub, hdue, hall⟩ := hfits
    cases rest with
    | nil => cases e <;> simp [step, hpc] at hstep
    | cons i rest =>
      cases e with
      | started time =>
        rw [step, hpc] at hstep
        obtain rfl := Option.some.inj hstep
        exact inv_retrying hactive hsub (hdue i rfl) hall
      | cancel =>
        rw [step, hpc] at hstep
        obtain rfl := Option.some.inj hstep
        exact inv_cancelRetry hactive (hdue i rfl) hall
      | _ => simp [step, hpc] at hstep
  | writing rest now payload =>
    rw [Fits, hpc] at hfits
    obtain ⟨hrest, hsub, hall⟩ := hfits
    cases rest with
    | nil => cases e <;> simp [step, hpc] at hstep
    | cons i rest =>
      cases e with
      | wrote failed =>
        rw [step, hpc] at hstep
        cases failed with
        | false =>
          obtain rfl := Option.some.inj hstep
          exact inv_written hactive hrest hsub hall
        | true =>
          obtain rfl := Option.some.inj hstep
          exact inv_broken hactive hrest hsub hall
      | cancel =>
        rw [step, hpc] at hstep
        obtain rfl := Option.some.inj hstep
        exact inv_cancelWrite hactive hsub hall
      | _ => simp [step, hpc] at hstep
  | closing rest now payload =>
    rw [Fits, hpc] at hfits
    obtain ⟨hrest, hsub, hall⟩ := hfits
    cases e with
    | closed =>
      rw [step, hpc] at hstep
      obtain rfl := Option.some.inj hstep
      exact inv_writeLoop hactive hrest hsub hall
    | cancel =>
      rw [step, hpc] at hstep
      obtain rfl := Option.some.inj hstep
      exact inv_finish hactive fun i hi => (hall i hi).imp fun q hq => ⟨hq.1, hq.2.closable hsub⟩
    | _ => simp [step, hpc] at hstep
  | gathering =>
    rw [Fits, hpc] at hfits
    cases e with
    | gathered =>
      rw [step, hpc] at hstep
      obtain rfl := Option.some.inj hstep
      exact inv_shutLoop hactive hactive hfits
    | cancel => simp [unhurried, hpc] at hunhurried
    | _ => simp [step, hpc] at hstep
  | shutting rest =>
    rw [Fits, hpc] at hfits
    cases e with
    | closed =>
      rw [step, hpc] at hstep
      obtain rfl := Option.some.inj hstep
      exact inv_shutLoop hactive hfits.1 hfits.2
    | cancel => simp [unhurried, hpc] at hunhurried
    | _ => simp [step, hpc] at hstep

theorem inv_of_reachable (h : Reachable (guarded (step c) unhurried) {} p) : p.Inv c :=
  h.invariant _ ⟨List.nodup_nil, fun _ _ => ⟨.closed, rfl, Or.inl rfl⟩⟩
    fun _ _ _ _ ht hstep => inv_step ht hstep

/-- A sink is shut once `run` has ended, and open or set aside between the epochs. -/
def Rests (p : Publisher ι α) (i : ι) (q : SinkState) : Prop :=
  match p.pc with
  | .ended => Shut q
  | .waiting => Settled p.active p.failed i q
  | _ => True

/-- What a sink sees is a run of its protocol, and the publisher knows where it stands. -/
theorem sink_protocol (h : Reachable (guarded (step c) unhurried) {} p) (hi : i ∈ c.sinks) :
    ∃ q, Mtrtk.run SinkState.step .closed (view c i p.log) = some q ∧ p.Rests i q := by
  obtain ⟨-, hfits⟩ := inv_of_reachable h
  unfold Rests
  unfold Fits at hfits
  cases hpc : p.pc with
  | ended =>
    rw [hpc] at hfits
    exact hfits i hi
  | waiting =>
    rw [hpc] at hfits
    exact hfits i hi
  | starting rest =>
    rw [hpc] at hfits
    exact (hfits.2.2 i hi).imp fun q hq => ⟨hq.1, trivial⟩
  | retrying rest now epoch | writing rest now payload | closing rest now payload =>
    rw [hpc] at hfits
    exact (hfits.2.2 i hi).imp fun q hq => ⟨hq.1, trivial⟩
  | gathering =>
    rw [hpc] at hfits
    exact (hfits i hi).imp fun q hq => ⟨hq.1, trivial⟩
  | shutting rest =>
    rw [hpc] at hfits
    exact (hfits.2 i hi).imp fun q hq => ⟨hq.1, trivial⟩

end Publisher

/-! ## A run -/

/-- Two sinks. -/
def twoSinks {α : Type*} (build : α → Bool → List UInt8) : Selection Bool α :=
  ⟨[false, true], by decide, build, 1⟩

/-- The second sink fails to start, and is started again with the second epoch. There the first one
fails to write. -/
def retriedRun {α : Type*} (epoch : α) : List (PublisherEvent α) :=
  [.run, .started none, .started (some 1), .epoch 2 epoch, .wrote false, .epoch 12 epoch,
    .started none, .wrote true, .closed, .wrote false]

/-- Then the run is stopped, and another one begins. -/
def restartedRun {α : Type*} (epoch : α) : List (PublisherEvent α) :=
  retriedRun epoch ++ [.stop, .gathered, .closed, .run, .started none, .started none]

open Publisher in
theorem sink_protocol_restarted : ∃ p,
    run (guarded (step (twoSinks fun b _ => [b])) unhurried) {} (restartedRun 0x24) = some p ∧
    p.pc = .waiting ∧ p.active = [false, true] ∧
    ∃ q, run SinkState.step .closed (view (twoSinks fun b _ => [b]) true p.log) = some q ∧
      p.Rests true q := by
  have hrun : (run (guarded (step (twoSinks fun b _ => [b])) unhurried) {}
      (restartedRun (0x24 : UInt8))).map (fun p => (p.pc, p.active)) =
        some (.waiting, [false, true]) := by
    decide +kernel
  obtain ⟨p, hp, heq⟩ := Option.map_eq_some_iff.1 hrun
  obtain ⟨hpc, hactive⟩ := Prod.mk.inj heq
  exact ⟨p, hp, hpc, hactive, sink_protocol ⟨_, hp⟩ (List.mem_cons_of_mem _ List.mem_cons_self)⟩

open Publisher in
/-- A cancellation while the first sink is closed : the second one is started twice. -/
theorem opened_twice : ∃ p : Publisher Bool UInt8,
    run (step (twoSinks fun b _ => [b])) {}
      [.run, .started none, .started none, .stop, .gathered, .cancel,
        .run, .started none, .started none] = some p ∧
    run SinkState.step .closed (view (twoSinks fun (b : UInt8) _ => [b]) true p.log) = none :=
  ⟨_, rfl, by decide +kernel⟩

end Nmea

end Mtrtk
