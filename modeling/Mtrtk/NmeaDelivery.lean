import Mtrtk.NmeaPublisher

/-!
# What an NMEA sink is sent

Which epochs are due for the slow sentences (`slow_spaced`) : `_last_slow` is the time of an epoch
that was due, also where it had none of them to tell. What a sink was written since it was started,
all that went out since (`delivered_since_start`), and what the framer at its other end gets out of
it (`stream_framed`).
-/

namespace Mtrtk

namespace Nmea

namespace Publisher

variable {ι α : Type*} [DecidableEq ι] {c : Selection ι α} {p p' : Publisher ι α} {i : ι}
  {rest : List ι} {now : ℚ} {payload : List UInt8}

/-! ## The slow sentences -/

/-- When the last epoch went out that was due for the slow sentences, whether it had any to tell or
not. -/
def lastDueIn (log : List (Entry ι α)) : Option ℚ :=
  (log.filterMap fun
    | .published now _ true => some now
    | _ => none).getLast?

/-- Not an epoch that goes out. -/
def Quiet : Entry ι α → Prop
  | .published _ _ _ => False
  | _ => True

/-- Every epoch that goes out says something, and is due for the slow sentences where the last one
that was is at least `slow_interval_s` before. -/
structure Spaced (c : Selection ι α) (p : Publisher ι α) : Prop where
  last : p.lastSlow = lastDueIn p.log
  spaced : ∀ before now epoch slow after, p.log = before ++ .published now epoch slow :: after →
    c.build epoch slow ≠ [] ∧
      slow = (lastDueIn before).all fun last => c.slowIntervalS ≤ now - last

omit [DecidableEq ι] in
theorem lastDueIn_append {log log' : List (Entry ι α)} (h : ∀ e ∈ log', Quiet e) :
    lastDueIn (log ++ log') = lastDueIn log := by
  have hnil : (log'.filterMap fun
      | .published now _ true => some now
      | _ => none) = [] := by
    refine List.filterMap_eq_nil_iff.2 fun e he => ?_
    have hquiet := h e he
    cases e with
    | published => exact hquiet.elim
    | run | call => rfl
  rw [lastDueIn, List.filterMap_append, hnil, List.append_nil, lastDueIn]

omit [DecidableEq ι] in
/-- What is added without an epoch changes nothing. -/
theorem Spaced.quiet {es : List (Entry ι α)} (h : p.Spaced c) (hes : ∀ e ∈ es, Quiet e)
    (hlog : p'.log = p.log ++ es) (hlast : p'.lastSlow = p.lastSlow) : p'.Spaced c where
  last := by rw [hlast, h.last, hlog, lastDueIn_append hes]
  spaced before now epoch slow after heq := by
    rw [hlog] at heq
    rcases List.append_eq_append_iff.1 heq with ⟨mid, rfl, hmid⟩ | ⟨mid, hp, hmid⟩
    · exact (hes (.published now epoch slow) (by simp [hmid])).elim
    · cases mid with
      | nil =>
        rw [List.nil_append] at hmid
        exact (hes (.published now epoch slow) (hmid ▸ List.mem_cons_self)).elim
      | cons e mid =>
        obtain ⟨rfl, -⟩ := List.cons.inj hmid
        exact h.spaced before now epoch slow mid hp

omit [DecidableEq ι] in
theorem spaced_startLoop (h : p.Spaced c) : (p.startLoop rest).Spaced c := by
  cases rest <;> exact ⟨h.last, h.spaced⟩

omit [DecidableEq ι] in
theorem spaced_writeLoop (h : p.Spaced c) : (p.writeLoop now payload rest).Spaced c := by
  cases rest <;> exact ⟨h.last, h.spaced⟩

omit [DecidableEq ι] in
theorem spaced_published {epoch : α} {slow : Bool} (h : p.Spaced c)
    (hslow : slow = p.lastSlow.all fun last => c.slowIntervalS ≤ now - last)
    (hne : c.build epoch slow ≠ []) (hlog : p'.log = p.log ++ [.published now epoch slow])
    (hlast : p'.lastSlow = if slow then some now else p.lastSlow) : p'.Spaced c where
  last := by
    rw [hlast, hlog, lastDueIn, List.filterMap_append]
    cases slow with
    | true => simp
    | false => simpa [lastDueIn] using h.last
  spaced before now' epoch' slow' after heq := by
    rw [hlog] at heq
    rcases List.append_eq_append_iff.1 heq with ⟨mid, rfl, hmid⟩ | ⟨mid, hp, hmid⟩
    · cases mid with
      | nil =>
        obtain ⟨heq, -⟩ := List.cons.inj hmid
        injection heq with hnow hepoch hs
        subst hnow hepoch hs
        rw [List.append_nil, ← h.last]
        exact ⟨hne, hslow⟩
      | cons e mid => simp at hmid
    · cases mid with
      | nil =>
        obtain ⟨heq, -⟩ := List.cons.inj hmid
        injection heq with hnow hepoch hs
        subst hnow hepoch hs
        rw [List.append_nil] at hp
        rw [← hp, ← h.last]
        exact ⟨hne, hslow⟩
      | cons e mid =>
        obtain ⟨rfl, -⟩ := List.cons.inj hmid
        exact h.spaced before now' epoch' slow' mid hp

omit [DecidableEq ι] in
theorem spaced_publish {epoch : α} (h : p.Spaced c) : (p.publish c now epoch).Spaced c := by
  unfold publish
  dsimp only
  split
  · exact ⟨h.last, h.spaced⟩
  · next hne => exact spaced_writeLoop (spaced_published h rfl hne rfl rfl)

omit [DecidableEq ι] in
theorem spaced_retryLoop {epoch : α} (h : p.Spaced c) :
    (p.retryLoop c now epoch rest).Spaced c := by
  induction rest with
  | nil => exact spaced_publish h
  | cons i rest ih =>
    rw [retryLoop]
    split
    · exact ⟨h.last, h.spaced⟩
    · exact ih

omit [DecidableEq ι] in
theorem spaced_note {e : Entry ι α} (h : p.Spaced c) (he : Quiet e) : (p.note e).Spaced c := by
  refine h.quiet (fun e' he' => ?_) rfl rfl
  rwa [List.mem_singleton.1 he']

theorem spaced_started {retry time : Option ℚ} (h : p.Spaced c) :
    (p.started i retry time).Spaced c := by
  cases time with
  | none =>
    have hnote : (p.note (.call i (.start retry .ok))).Spaced c := spaced_note h trivial
    exact ⟨hnote.last, hnote.spaced⟩
  | some time =>
    have hnote : (p.note (.call i (.start retry (.failed time)))).Spaced c := spaced_note h trivial
    exact ⟨hnote.last, hnote.spaced⟩

omit [DecidableEq ι] in
theorem spaced_shutLoop (h : p.Spaced c) : (p.shutLoop rest).Spaced c := by
  cases rest with
  | nil => exact ⟨h.last, h.spaced⟩
  | cons i rest =>
    have hnote : (p.note (.call i .close)).Spaced c := spaced_note h trivial
    exact ⟨hnote.last, hnote.spaced⟩

theorem spaced_step {e : PublisherEvent α} (h : p.Spaced c) (hstep : step c p e = some p') :
    p'.Spaced c := by
  unfold step at hstep
  split at hstep
  · split at hstep
    · obtain rfl := Option.some.inj hstep
      have hnote : (p.note .run).Spaced c := spaced_note h trivial
      exact spaced_startLoop ⟨hnote.last, hnote.spaced⟩
    · cases hstep
  · split at hstep
    · obtain rfl := Option.some.inj hstep
      exact spaced_startLoop (spaced_started h)
    · obtain rfl := Option.some.inj hstep
      exact spaced_retryLoop (spaced_started h)
    · cases hstep
  · split at hstep
    · obtain rfl := Option.some.inj hstep
      exact spaced_retryLoop h
    · cases hstep
  · split at hstep
    · next i rest now payload _ =>
      split at hstep
      · obtain rfl := Option.some.inj hstep
        have hwrite : (p.note (.call i (.write payload (.failed now)))).Spaced c :=
          spaced_note h trivial
        have hclose := @spaced_note _ _ _ _ (.call i .close) hwrite trivial
        exact ⟨hclose.last, hclose.spaced⟩
      · obtain rfl := Option.some.inj hstep
        exact spaced_writeLoop (spaced_note h trivial)
    · cases hstep
  · split at hstep
    · obtain rfl := Option.some.inj hstep
      exact spaced_writeLoop h
    · obtain rfl := Option.some.inj hstep
      exact spaced_shutLoop h
    · cases hstep
  · split at hstep
    · obtain rfl := Option.some.inj hstep
      exact ⟨h.last, h.spaced⟩
    · cases hstep
  · split at hstep
    · obtain rfl := Option.some.inj hstep
      exact spaced_shutLoop h
    · cases hstep
  · split at hstep
    · next i _ _ =>
      obtain rfl := Option.some.inj hstep
      have hnote : (p.note (.call i (.start none .cut))).Spaced c := spaced_note h trivial
      exact ⟨hnote.last, hnote.spaced⟩
    · obtain rfl := Option.some.inj hstep
      exact ⟨h.last, h.spaced⟩
    · obtain rfl := Option.some.inj hstep
      exact ⟨h.last, h.spaced⟩
    · next i _ now _ _ =>
      obtain rfl := Option.some.inj hstep
      have hnote : (p.note (.call i (.start (some now) .cut))).Spaced c := spaced_note h trivial
      exact ⟨hnote.last, hnote.spaced⟩
    · next i _ _ payload _ =>
      obtain rfl := Option.some.inj hstep
      have hnote : (p.note (.call i (.write payload .cut))).Spaced c := spaced_note h trivial
      exact ⟨hnote.last, hnote.spaced⟩
    · obtain rfl := Option.some.inj hstep
      exact ⟨h.last, h.spaced⟩
    · obtain rfl := Option.some.inj hstep
      exact ⟨h.last, h.spaced⟩
    · cases hstep

end Publisher

/-- The selection that the daemon makes, of `wanted`. -/
def nmeaSelection {ι : Type*} (sqrt : ℚ → ℚ) (wanted : List String) (slowIntervalS : ℚ)
    (sinks : List ι) (nodup : sinks.Nodup) : Selection ι ReceiverState where
  sinks := sinks
  nodup := nodup
  build state slow := (buildSentences sqrt state wanted slow).flatten
  slowIntervalS := slowIntervalS

/-- Without the slow sentences, it is as if these were not wanted. -/
theorem buildSentences_false (sqrt : ℚ → ℚ) (state : ReceiverState) (wanted : List String) :
    buildSentences sqrt state wanted false =
      buildSentences sqrt state (wanted.filter (· ∉ slowSentences)) true := by
  have hsame : (allSentences.filter fun name => name ∈ wanted ∧
        (name ∈ slowSentences → false = true) ∧
        (hasPosition state = true ∨ name ∈ attitudeSentences)) =
      allSentences.filter fun name => name ∈ wanted.filter (· ∉ slowSentences) ∧
        (name ∈ slowSentences → true = true) ∧
        (hasPosition state = true ∨ name ∈ attitudeSentences) := by
    refine List.filter_congr fun name _ => ?_
    simp [and_assoc]
  rw [buildSentences, buildSentences, bodies, bodies, hsame]

open Publisher in
/-- An epoch that goes out, in however many runs, is due for the slow sentences where none before
was, or the last that was is at least `slow_interval_s` before. Where it is not due it has none of
them. No epoch goes out empty. -/
theorem Publisher.slow_spaced {ι : Type*} [DecidableEq ι] (sqrt : ℚ → ℚ) (wanted : List String)
    (slowIntervalS : ℚ) {sinks : List ι} (nodup : sinks.Nodup) {p : Publisher ι ReceiverState}
    (h : Reachable (step (nmeaSelection sqrt wanted slowIntervalS sinks nodup)) {} p)
    {before after : List (Entry ι ReceiverState)} {now : ℚ} {epoch : ReceiverState} {slow : Bool}
    (hlog : p.log = before ++ .published now epoch slow :: after) :
    (buildSentences sqrt epoch wanted slow).flatten ≠ [] ∧
      (slow = true ↔ ∀ last ∈ lastDueIn before, slowIntervalS ≤ now - last) ∧
      (slow = false → buildSentences sqrt epoch wanted slow =
        buildSentences sqrt epoch (wanted.filter (· ∉ slowSentences)) true) := by
  have hspaced : p.Spaced (nmeaSelection sqrt wanted slowIntervalS sinks nodup) :=
    h.invariant (Spaced _) ⟨rfl, fun before _ _ _ _ heq => absurd heq (by simp)⟩
      fun _ _ _ _ ht hstep => spaced_step ht hstep
  obtain ⟨hne, hslow⟩ := hspaced.spaced before now epoch slow after hlog
  refine ⟨hne, ?_, ?_⟩
  · rw [hslow]
    cases lastDueIn before with
    | none => simp
    | some last =>
      rw [Option.all_some, decide_eq_true_iff]
      simp [nmeaSelection]
  · rintro rfl
    exact buildSentences_false sqrt epoch wanted

/-- A heading, and no position yet. -/
def headingOnly : ReceiverState where
  utc := twoSatellites.utc
  attitude := some { headingDeg := some 90 }

/-- An epoch has only a heading to tell, the next one comes half a second later. -/
def headingRun : List (PublisherEvent ReceiverState) :=
  [.run, .started none, .started none, .epoch 2 headingOnly, .wrote false, .wrote false,
    .epoch (5 / 2) twoSatellites, .wrote false, .wrote false]

open Publisher in
/-- The first epoch was due for the satellites, without any to tell, so the second one is not. -/
theorem slow_spaced_heading : ∃ p before after,
    run (step (nmeaSelection id ["HDT", "GGA", "GSV"] 1 [false, true] (by decide))) {} headingRun =
      some p ∧
    p.log = before ++ .published (5 / 2) twoSatellites false :: after ∧
    lastDueIn before = some 2 ∧
    (buildSentences id twoSatellites ["HDT", "GGA", "GSV"] false).flatten ≠ [] ∧
    (false = true ↔ ∀ last ∈ lastDueIn before, 1 ≤ 5 / 2 - last) ∧
    (false = false → buildSentences id twoSatellites ["HDT", "GGA", "GSV"] false =
      buildSentences id twoSatellites (["HDT", "GGA", "GSV"].filter (· ∉ slowSentences)) true) := by
  have hrun : (run (step (nmeaSelection id ["HDT", "GGA", "GSV"] 1 [false, true] (by decide))) {}
      headingRun).map log =
      some ([.run, .call false (.start none .ok), .call true (.start none .ok),
        .published 2 headingOnly true,
        .call false (.write (buildSentences id headingOnly ["HDT"] true).flatten .ok),
        .call true (.write (buildSentences id headingOnly ["HDT"] true).flatten .ok)] ++
        .published (5 / 2) twoSatellites false ::
          [.call false (.write (buildSentences id twoSatellites ["GGA"] true).flatten .ok),
            .call true (.write (buildSentences id twoSatellites ["GGA"] true).flatten .ok)]) := by
    decide +kernel
  obtain ⟨p, hp, hlog⟩ := Option.map_eq_some_iff.1 hrun
  exact ⟨p, _, _, hp, hlog, rfl, slow_spaced id _ 1 _ ⟨_, hp⟩ hlog⟩

namespace Publisher

variable {ι α : Type*} [DecidableEq ι] {c : Selection ι α} {p : Publisher ι α} {i : ι}

/-! ## What is delivered -/

/-- The epochs that go out, each with whether it has the slow sentences. -/
def epochsIn (log : List (Entry ι α)) : List (α × Bool) :=
  log.filterMap fun
    | .published _ epoch slow => some (epoch, slow)
    | _ => none

/-- What is written to a sink. -/
def written (i : ι) (log : List (Entry ι α)) : List (List UInt8) :=
  log.filterMap fun
    | .call j (.write payload .ok) => if j = i then some payload else none
    | _ => none

/-- What goes out, and what is written, as a sink sees it. -/
theorem filterMap_view (c : Selection ι α) (i : ι) (log : List (Entry ι α)) :
    ((epochsIn log).map fun e => c.build e.1 e.2) = (view c i log).filterMap (fun
      | .published _ payload => some payload
      | _ => none) ∧
    written i log = (view c i log).filterMap fun
      | .call (.write payload .ok) => some payload
      | _ => none := by
  constructor
  · rw [epochsIn, List.map_filterMap, view, List.filterMap_filterMap]
    refine List.filterMap_congr fun e _ => ?_
    cases e with
    | run | published => rfl
    | call j k =>
      by_cases hj : j = i <;> simp [Entry.sight, hj]
  · rw [written, view, List.filterMap_filterMap]
    refine List.filterMap_congr fun e _ => ?_
    cases e with
    | run | published => rfl
    | call j k =>
      by_cases hj : j = i
      · subst hj
        rcases k with _ | ⟨payload, answer⟩ | _
        · simp [Entry.sight]
        · cases answer <;> simp [Entry.sight]
        · simp [Entry.sight]
      · rcases k with _ | ⟨payload, answer⟩ | _
        · simp [Entry.sight, hj]
        · cases answer <;> simp [Entry.sight, hj]
        · simp [Entry.sight, hj]

omit [DecidableEq ι] in
theorem filterMap_delivered (pubs : List (ℚ × List UInt8)) :
    ((delivered pubs).filterMap fun
      | .published _ payload => some payload
      | _ => none) = pubs.map Prod.snd ∧
    ((delivered pubs).filterMap fun
      | .call (.write payload .ok) => some payload
      | _ => none) = pubs.map Prod.snd := by
  induction pubs with
  | nil => exact ⟨rfl, rfl⟩
  | cons pub pubs ih =>
    exact ⟨congrArg (pub.2 :: ·) ih.1, congrArg (pub.2 :: ·) ih.2⟩

/-- An open sink was started, and since then was called only to write : each epoch that went out,
once, in their order. -/
theorem delivered_since_start (h : Reachable (guarded (step c) unhurried) {} p)
    (hpc : p.pc = .waiting) (hi : i ∈ c.sinks) (hmem : i ∈ p.active) :
    ∃ before retry after, p.log = before ++ .call i (.start retry .ok) :: after ∧
      (∀ k, .call i k ∈ after → ∃ payload, k = .write payload .ok) ∧
      written i after = (epochsIn after).map fun e => c.build e.1 e.2 := by
  obtain ⟨q, hview, hq⟩ := sink_protocol h hi
  rw [Rests, hpc] at hq
  obtain rfl : q = .opened := by
    rcases hq with ⟨-, -, hq⟩ | ⟨hnot, -⟩
    · exact hq
    · exact absurd hmem hnot
  obtain ⟨seen, retry, pubs, hseen⟩ := SinkState.delivers hview
  obtain ⟨l₁, l₂, hlog, -, hl₂⟩ := List.filterMap_eq_append_iff.1 hseen
  obtain ⟨m₁, e, after, rfl, -, he, hafter⟩ := List.filterMap_eq_cons_iff.1 hl₂
  have hstart : e = .call i (.start retry .ok) := by
    cases e with
    | run | published => simp [Entry.sight] at he
    | call j k =>
      by_cases hj : j = i
      · simpa [Entry.sight, hj] using he
      · simp [Entry.sight, hj] at he
  subst hstart
  refine ⟨l₁ ++ m₁, retry, after, by simp [hlog], fun k hk => ?_, ?_⟩
  · have hsight : Sight.call k ∈ delivered pubs := by
      rw [← hafter]
      exact List.mem_filterMap.2 ⟨_, hk, sight_call c i k⟩
    obtain ⟨pub, -, hpub⟩ := List.mem_flatMap.1 hsight
    simp only [List.mem_cons, reduceCtorEq, Sight.call.injEq, List.not_mem_nil, or_false,
      false_or] at hpub
    exact ⟨pub.2, hpub⟩
  · obtain ⟨hepochs, hwritten⟩ := filterMap_view c i after
    have hafter : view c i after = delivered pubs := hafter
    rw [hepochs, hwritten, hafter, (filterMap_delivered pubs).1, (filterMap_delivered pubs).2]

end Publisher

/-- `run` waits for an epoch. -/
def Publisher.betweenEpochs {ι α : Type*} (p : Publisher ι α) : Bool :=
  match p.pc with
  | .waiting => true
  | _ => false

theorem Publisher.eq_waiting {ι α : Type*} {p : Publisher ι α} (h : p.betweenEpochs) :
    p.pc = .waiting := by
  unfold betweenEpochs at h
  split at h
  · assumption
  · cases h

open Publisher in
/-- The framer at the other end of an open sink gets the sentences of the epochs that went out since
it was started, and nothing else, however they are cut. -/
theorem stream_framed {ι : Type*} [DecidableEq ι] (sqrt : ℚ → ℚ) (wanted : List String)
    (slowIntervalS : ℚ) {sinks : List ι} (nodup : sinks.Nodup) {p : Publisher ι ReceiverState}
    (h : Reachable (guarded (step (nmeaSelection sqrt wanted slowIntervalS sinks nodup)) unhurried)
      {} p)
    (hlen : ∀ e ∈ epochsIn p.log, ∀ s ∈ buildSentences sqrt e.1 wanted e.2, s.length ≤ nmeaMaxLen)
    (hpc : p.pc = .waiting) {i : ι} (hi : i ∈ sinks) (hmem : i ∈ p.active) :
    ∃ before retry after, p.log = before ++ .call i (.start retry .ok) :: after ∧
      (∀ k, .call i k ∈ after → ∃ payload, k = .write payload .ok) ∧
      ∀ (M : ℕ) (ps : List (List UInt8)), ps.flatten = (written i after).flatten →
        (Framer.fresh M).NoOverflow ps →
          ((Framer.fresh M).feedAll ps).1 = (epochsIn after).flatMap fun e =>
            (buildSentences sqrt e.1 wanted e.2).map (Frame.mk .nmea) := by
  obtain ⟨before, retry, after, hlog, hcalls, hwritten⟩ := delivered_since_start h hpc hi hmem
  refine ⟨before, retry, after, hlog, hcalls, fun M ps hps hfits => ?_⟩
  have hss : ∀ fields ∈ (epochsIn after).flatMap fun e => bodies sqrt e.1 wanted e.2,
      PlainFields fields := fun fields hfields => by
    obtain ⟨e, -, hfields⟩ := List.mem_flatMap.1 hfields
    exact plain_bodies hfields
  have hfits' : ∀ fields ∈ (epochsIn after).flatMap fun e => bodies sqrt e.1 wanted e.2,
      (sentence fields).length ≤ nmeaMaxLen := fun fields hfields => by
    obtain ⟨e, he, hfields⟩ := List.mem_flatMap.1 hfields
    refine hlen e ?_ _ (List.mem_map_of_mem hfields)
    rw [hlog, epochsIn, List.filterMap_append]
    exact List.mem_append_right _ he
  rw [feedAll_sentences hfits hss hfits', List.map_flatMap]
  · simp [buildSentences, Function.comp_def]
  · rw [hps, hwritten, List.map_flatMap, List.flatMap_def, List.flatten_flatten, List.map_map]
    rfl

open Publisher in
theorem stream_framed_retried : ∃ p before retry after,
    run (guarded (step (nmeaSelection (fun x => x) ["GGA"] 1 [false, true] (by decide))) unhurried) {}
      (retriedRun twoSatellites) = some p ∧
    p.log = before ++ .call true (.start retry .ok) :: after ∧
      (∀ k, .call true k ∈ after → ∃ payload, k = .write payload .ok) ∧
      ∀ (M : ℕ) (ps : List (List UInt8)), ps.flatten = (written true after).flatten →
        (Framer.fresh M).NoOverflow ps →
          ((Framer.fresh M).feedAll ps).1 = (epochsIn after).flatMap fun e =>
            (buildSentences (fun x => x) e.1 ["GGA"] e.2).map (Frame.mk .nmea) := by
  have hrun : (run (guarded (step (nmeaSelection (fun x => x) ["GGA"] 1 [false, true] (by decide)))
      unhurried) {} (retriedRun twoSatellites)).map (fun p : Publisher Bool ReceiverState =>
        (p.betweenEpochs, p.active, decide (∀ e ∈ epochsIn p.log,
          ∀ s ∈ buildSentences (fun x => x) e.1 ["GGA"] e.2, s.length ≤ nmeaMaxLen))) =
      some (true, [true], true) := by
    decide +kernel
  obtain ⟨p, hp, heq⟩ := Option.map_eq_some_iff.1 hrun
  obtain ⟨hpc, heq⟩ := Prod.mk.inj heq
  obtain ⟨hactive, hlen⟩ := Prod.mk.inj heq
  obtain ⟨before, retry, after, h⟩ := stream_framed (fun x => x) ["GGA"] 1 (by decide) ⟨_, hp⟩
    (of_decide_eq_true hlen) (eq_waiting hpc) (List.mem_cons_of_mem _ List.mem_cons_self)
    (hactive ▸ List.mem_singleton_self true)
  exact ⟨p, before, retry, after, hp, h⟩

end Nmea

end Mtrtk
