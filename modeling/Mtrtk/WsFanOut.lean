import Mathlib.Data.List.Chain
import Mtrtk.WsHub

/-!
# The fan-out has no gaps

A client is offered its snapshot and then what it is to hear of the messages read since it was
added, each as it is read (`Inv.receive`), until one does not fit its outbox or its teardown begins.
From then on it is offered nothing (`Later`), and `serve` leaves it closed.

`served_without_gaps` is that of every client in every state the hub reaches, with any number of
sockets.
-/

namespace Mtrtk

namespace Ws

variable {Item Json : Type} {dump : Dump Item Json}

/-! ## Spans -/

/-- The spans among the messages of a client. -/
def WsMessage.isSpan : WsMessage Json → Bool
  | .update .span _ _ => true
  | _ => false

theorem isSpan_update {topic : Topic} (h : topic ≠ .span) (busTopic : String) (data : Json) :
    (WsMessage.update topic busTopic data).isSpan = false := by
  cases topic <;> first | rfl | exact absurd rfl h

/-- The spans a client hears are of bus messages `taken` at least the interval apart. -/
structure Thinned (dump : Dump Item Json) (ds taken : List (Dispatched Item))
    (acc : Option ℚ × List (WsMessage Json)) : Prop where
  sub : taken.Sublist (ds.filter fun d => topicFor d.busTopic = some .span)
  spaced : taken.IsChain fun d d' => spanMinInterval ≤ d'.now - d.now
  last : taken.getLast?.map Dispatched.now = acc.1
  told : acc.2.filter WsMessage.isSpan = taken.filterMap fun d =>
    (updateData dump d.busTopic d.item d.later).map (.update .span d.busTopic)

theorem thinned_hear {wanted : List Topic} {ds taken : List (Dispatched Item)}
    {acc : Option ℚ × List (WsMessage Json)} (h : Thinned dump ds taken acc) (d : Dispatched Item) :
    ∃ taken', Thinned dump (ds ++ [d]) taken' (hear dump wanted acc d) := by
  have hsub : taken.Sublist ((ds ++ [d]).filter fun d => topicFor d.busTopic = some .span) := by
    rw [List.filter_append]
    exact h.sub.trans (List.sublist_append_left _ _)
  have hsame : ∀ msgs : List (WsMessage Json), msgs.filter WsMessage.isSpan = [] →
      Thinned dump (ds ++ [d]) taken (acc.1, acc.2 ++ msgs) := fun msgs hmsgs =>
    ⟨hsub, h.spaced, h.last, by rw [List.filter_append, hmsgs, List.append_nil, h.told]⟩
  have hskip : Thinned dump (ds ++ [d]) taken acc := ⟨hsub, h.spaced, h.last, h.told⟩
  simp only [hear]
  split
  · split
    · exact ⟨taken, hskip⟩
    · exact ⟨taken, hsame _ rfl⟩
  · split
    next => exact ⟨taken, hskip⟩
    next topic htopic =>
      split
      · exact ⟨taken, hskip⟩
      · split
        next hspan =>
          subst hspan
          split
          next hdue =>
            refine ⟨taken ++ [d], ⟨?_, ?_, by simp, ?_⟩⟩
            · rw [List.filter_append]
              exact h.sub.append (by simp [htopic])
            · refine List.isChain_append.2 ⟨h.spaced, List.isChain_singleton _, ?_⟩
              intro a ha b hb
              obtain rfl : d = b := by simpa using hb
              rw [← h.last, Option.mem_def.1 ha] at hdue
              simpa [spanDueAt] using hdue
            · rw [List.filter_append, List.filterMap_append, h.told]
              congr 1
              cases hdata : updateData dump d.busTopic d.item d.later with
              | none => simp [hdata]
              | some data => simp [hdata, WsMessage.isSpan]
          next => exact ⟨taken, hskip⟩
        next hspan =>
          refine ⟨taken, hsame _ ?_⟩
          cases updateData dump d.busTopic d.item d.later with
          | none => rfl
          | some data =>
            refine List.filter_eq_nil_iff.2 fun m hm => ?_
            obtain rfl := List.mem_singleton.1 hm
            rw [isSpan_update hspan]
            exact Bool.false_ne_true

theorem heard_append (wanted : List Topic) (ds : List (Dispatched Item)) (d : Dispatched Item) :
    heard dump wanted (ds ++ [d]) = hear dump wanted (heard dump wanted ds) d := by
  simp [heard]

/-- At most one span for each interval. -/
theorem thinned_heard (wanted : List Topic) (ds : List (Dispatched Item)) :
    ∃ taken, Thinned dump ds taken (heard dump wanted ds) := by
  induction ds using List.reverseRecOn with
  | nil => exact ⟨[], ⟨List.nil_sublist _, List.isChain_nil, rfl, rfl⟩⟩
  | append_singleton ds d ih =>
    obtain ⟨taken, htaken⟩ := ih
    rw [heard_append]
    exact thinned_hear htaken d

/-! ## One client -/

namespace WsClient

variable {c c' : WsClient Json} {told : List (WsMessage Json)} {last : Option ℚ}

/-- What holds of a client that was told `told` after its snapshot, with the reading of the last
span. -/
structure Inv (told : List (WsMessage Json)) (last : Option ℚ) (c : WsClient Json) : Prop where
  nonempty : c.offered ≠ []
  offered : c.offered <+: c.snapshot :: told
  all : c.finished = false → c.overflowed = false →
    c.offered = c.snapshot :: told ∧ c.lastSpanMono = last
  taken : c.overflowed = false → c.offered = c.enqueued
  lost : c.overflowed = true → ∃ msg, c.offered = c.enqueued ++ [msg]
  room : c.outbox.length ≤ sendQueueLimit
  torn : c.pc ≠ .streaming → c.finished = true ∧ c.dropped = c.overflowed
  gone : c.pc = .gone → c.overflowed = true → slowClientCode ∈ c.closes

theorem enqueue_of_over {msg : WsMessage Json} (h : c.finished = true ∨ c.overflowed = true) :
    c.enqueue msg = c :=
  if_pos h

/-- A message more. -/
theorem Inv.enqueue (h : c.Inv told last) (msg : WsMessage Json) :
    (c.enqueue msg).Inv (told ++ [msg]) last := by
  have hmore : c.snapshot :: told <+: c.snapshot :: (told ++ [msg]) :=
    ⟨[msg], rfl⟩
  unfold WsClient.enqueue
  split_ifs with hover hroom
  · refine { h with
      offered := h.offered.trans hmore
      all := fun hfin hov => ?_ }
    simp [hfin, hov] at hover
  · obtain ⟨hfin, hov⟩ := not_or.1 hover
    obtain ⟨hall, hlast⟩ := h.all (Bool.eq_false_iff.2 hfin) (Bool.eq_false_iff.2 hov)
    have hnew : c.offered ++ [msg] = c.snapshot :: (told ++ [msg]) := by rw [hall]; rfl
    refine ⟨by simp, hnew ▸ List.prefix_rfl, fun _ _ => ⟨hnew, hlast⟩, fun hno => ?_,
      fun hyes => absurd hyes hov, by simpa using Nat.succ_le_of_lt hroom,
      h.torn, h.gone⟩
    rw [enqueued, h.taken hno, enqueued]
    simp
  · obtain ⟨hfin, hov⟩ := not_or.1 hover
    obtain ⟨hall, hlast⟩ := h.all (Bool.eq_false_iff.2 hfin) (Bool.eq_false_iff.2 hov)
    have hnew : c.offered ++ [msg] = c.snapshot :: (told ++ [msg]) := by rw [hall]; rfl
    have hstreaming : c.pc = .streaming := by_contra fun hpc => hfin (h.torn hpc).1
    refine ⟨by simp, hnew ▸ List.prefix_rfl, by simp, by simp, fun _ => ⟨msg, ?_⟩, h.room,
      fun hpc => absurd hstreaming hpc, fun hpc => by simp [hstreaming] at hpc⟩
    rw [h.taken (Bool.eq_false_iff.2 hov)]
    rfl

/-- A client that is added. -/
theorem inv_new (wanted : List Topic) (snapshot : WsMessage Json) (n : ℕ) :
    (enqueue { topics := wanted, snapshot, since := n } snapshot).Inv [] none := by
  have hnew : enqueue { topics := wanted, snapshot, since := n } snapshot =
      { topics := wanted, snapshot, since := n, outbox := [snapshot], offered := [snapshot] } := rfl
  rw [hnew]
  exact ⟨by simp, List.prefix_rfl, fun _ _ => ⟨rfl, rfl⟩, fun _ => rfl, by simp,
    by simp [sendQueueLimit], by simp, by simp⟩

/-- Nothing more is for a client that is over. -/
theorem Inv.grow (h : c.Inv told last) (hover : c.finished = true ∨ c.overflowed = true)
    (more : List (WsMessage Json)) (last' : Option ℚ) : c.Inv (told ++ more) last' := by
  refine { h with
    offered := h.offered.trans ⟨more, rfl⟩
    all := fun hfin hov => ?_ }
  simp [hfin, hov] at hover

theorem Inv.setLast (h : c.Inv told last) (now : ℚ) :
    Inv told (some now) { c with lastSpanMono := some now } :=
  { h with all := fun hfin hov => ⟨(h.all hfin hov).1, rfl⟩ }

theorem Inv.last_of_active (h : c.Inv told last)
    (hover : ¬(c.finished = true ∨ c.overflowed = true)) : c.lastSpanMono = last := by
  obtain ⟨hfin, hov⟩ := not_or.1 hover
  exact (h.all (Bool.eq_false_iff.2 hfin) (Bool.eq_false_iff.2 hov)).2

theorem Inv.finished_of_gone (h : c.Inv told last) (hgone : c.served = false) :
    c.finished = true := by
  refine (h.torn ?_).1
  rw [served, decide_eq_false_iff_not, not_not] at hgone
  simp [hgone]

/-- What one dispatch does to a client. -/
def receive (dump : Dump Item Json) (d : Dispatched Item) (c : WsClient Json) : WsClient Json :=
  if ¬c.served ∨ c.finished then c
  else if d.busTopic = "state.epoch" then
    let wanted := c.topics.filter (· ∈ epochTopics)
    if wanted = [] then c else c.enqueue (epochMessage dump d.item wanted)
  else
    match topicFor d.busTopic with
    | none => c
    | some topic =>
      let asked := WsHub.interest topic d.now c
      match updateData dump d.busTopic d.item d.later with
      | none => asked.2
      | some data => if asked.1 then asked.2.enqueue (.update topic d.busTopic data) else asked.2

theorem hear_grows (dump : Dump Item Json) (wanted : List Topic)
    (acc : Option ℚ × List (WsMessage Json)) (d : Dispatched Item) :
    ∃ more, (hear dump wanted acc d).2 = acc.2 ++ more := by
  have hnone : ∃ more, acc.2 = acc.2 ++ more := ⟨[], (List.append_nil _).symm⟩
  simp only [hear]
  split
  · split
    · exact hnone
    · exact ⟨_, rfl⟩
  · split
    · exact hnone
    · split
      · exact hnone
      · split
        · split
          · exact ⟨_, rfl⟩
          · exact hnone
        · exact ⟨_, rfl⟩

/-- A client that is over has at most a span noted. -/
theorem receive_of_over (dump : Dump Item Json) (h : c.finished = true ∨ c.overflowed = true)
    (d : Dispatched Item) :
    ∃ last, c.receive dump d = { c with lastSpanMono := last } := by
  have hnone : ∃ last, c = { c with lastSpanMono := last } := ⟨c.lastSpanMono, rfl⟩
  have hinterest : ∀ topic now, ∃ last,
      (WsHub.interest topic now c).2 = { c with lastSpanMono := last } := fun topic now => by
    unfold WsHub.interest spanDue
    split_ifs
    · exact ⟨some now, rfl⟩
    · exact hnone
    · exact hnone
    · exact hnone
  unfold WsClient.receive
  split_ifs
  · exact hnone
  · simp only [enqueue_of_over h, ite_self]
    exact hnone
  · split
    · exact hnone
    next topic _ =>
      obtain ⟨last, hlast⟩ := hinterest topic d.now
      have hover : (WsHub.interest topic d.now c).2.finished = true ∨
          (WsHub.interest topic d.now c).2.overflowed = true := by rw [hlast]; exact h
      refine ⟨last, ?_⟩
      split
      · exact hlast
      · simp only [enqueue_of_over hover, ite_self]
        exact hlast

theorem interest_eq (hserved : c.served = true) (hfin : c.finished = false) (topic : Topic)
    (now : ℚ) : WsHub.interest topic now c =
      if topic ∈ c.topics then if topic = .span then c.spanDue now else (true, c)
      else (false, c) := by
  simp [WsHub.interest, hserved, hfin]

/-- A client is offered what it is to hear of a bus message. -/
theorem Inv.receive (h : c.Inv told last) (d : Dispatched Item) :
    (c.receive dump d).Inv (hear dump c.topics (last, told) d).2
      (hear dump c.topics (last, told) d).1 := by
  by_cases hover : c.finished = true ∨ c.overflowed = true
  · obtain ⟨more, hmore⟩ := hear_grows dump c.topics (last, told) d
    obtain ⟨last', hlast'⟩ := receive_of_over dump hover d
    rw [hmore, hlast']
    exact { h.grow hover more last with
      all := fun hfin hov => by
        rw [Bool.eq_false_iff] at hfin hov
        exact absurd hover (not_or.2 ⟨hfin, hov⟩) }
  · obtain ⟨hfin, -⟩ := not_or.1 hover
    have hserved : c.served = true := by_contra fun hserved =>
      hfin (h.finished_of_gone (Bool.eq_false_iff.2 hserved))
    have hin : ¬(¬c.served = true ∨ c.finished = true) := not_or.2 ⟨not_not.2 hserved, hfin⟩
    have hlast := h.last_of_active hover
    by_cases hepoch : d.busTopic = "state.epoch"
    · simp only [WsClient.receive, hear, if_neg hin, if_pos hepoch]
      split_ifs
      · exact h
      · exact h.enqueue _
    · simp only [WsClient.receive, hear, if_neg hin, if_neg hepoch]
      cases htopic : topicFor d.busTopic with
      | none => exact h
      | some topic =>
        simp only [interest_eq hserved (Bool.eq_false_iff.2 hfin)]
        by_cases hwanted : topic ∈ c.topics
        · simp only [if_pos hwanted, if_neg (not_not.2 hwanted)]
          by_cases hspan : topic = .span
          · simp only [if_pos hspan, spanDue, hlast]
            by_cases hdue : spanDueAt last d.now = true
            · simp only [if_pos hdue]
              cases updateData dump d.busTopic d.item d.later with
              | none => simpa using h.setLast d.now
              | some data => exact (h.setLast d.now).enqueue _
            · simp only [if_neg hdue]
              cases updateData dump d.busTopic d.item d.later <;> exact h
          · simp only [if_neg hspan]
            cases updateData dump d.busTopic d.item d.later with
            | none => simpa using h
            | some data => exact h.enqueue _
        · simp only [if_neg hwanted, if_pos hwanted]
          cases updateData dump d.busTopic d.item d.later <;> exact h

/-- `c'` comes after `c` with nothing offered between. -/
structure Quiet (c c' : WsClient Json) : Prop where
  topics : c'.topics = c.topics
  snapshot : c'.snapshot = c.snapshot
  since : c'.since = c.since
  offered : c'.offered = c.offered
  enqueued : c'.enqueued = c.enqueued
  overflowed : c'.overflowed = c.overflowed
  finished : c.finished = true → c'.finished = true
  lastSpanMono : c'.lastSpanMono = c.lastSpanMono
  room : c'.outbox.length ≤ c.outbox.length
  served : c'.served = true → c.served = true

/-- What a task of `serve` does offers nothing. -/
theorem step_quiet {e : ClientEvent} (hs : c.step e = some c') : c.Quiet c' := by
  cases e with
  | take =>
    rw [WsClient.step] at hs
    split at hs
    next msg outbox hbox hsending =>
      obtain ⟨hpc, heq⟩ := Option.ite_none_right_eq_some.1 hs
      obtain rfl := Option.some.inj heq
      refine ⟨rfl, rfl, rfl, rfl, ?_, rfl, id, rfl, ?_, id⟩
      · simp [WsClient.enqueued, hbox, hsending]
      · simp [hbox]
    next => cases hs
  | sent =>
    rw [WsClient.step] at hs
    split at hs
    next msg hsending =>
      obtain ⟨hpc, heq⟩ := Option.ite_none_right_eq_some.1 hs
      obtain rfl := Option.some.inj heq
      refine ⟨rfl, rfl, rfl, rfl, ?_, rfl, id, rfl, le_rfl, id⟩
      simp [WsClient.enqueued, hsending]
    next => cases hs
  | ended =>
    obtain ⟨hpc, heq⟩ := Option.ite_none_right_eq_some.1 hs
    obtain rfl := Option.some.inj heq
    exact ⟨rfl, rfl, rfl, rfl, rfl, rfl, fun _ => rfl, rfl, le_rfl, by simp [WsClient.served, hpc]⟩
  | overflow =>
    obtain ⟨hpc, heq⟩ := Option.ite_none_right_eq_some.1 hs
    obtain rfl := Option.some.inj heq
    exact ⟨rfl, rfl, rfl, rfl, rfl, rfl, fun _ => rfl, rfl, le_rfl,
      by simp [WsClient.served, hpc.1]⟩
  | gathered =>
    obtain ⟨hpc, heq⟩ := Option.ite_none_right_eq_some.1 hs
    obtain rfl := Option.some.inj heq
    exact ⟨rfl, rfl, rfl, rfl, rfl, rfl, id, rfl, le_rfl, by simp [WsClient.served, hpc]⟩
  | closed =>
    obtain ⟨hpc, heq⟩ := Option.ite_none_right_eq_some.1 hs
    obtain rfl := Option.some.inj heq
    exact ⟨rfl, rfl, rfl, rfl, rfl, rfl, id, rfl, le_rfl, by simp [WsClient.served, hpc]⟩
  | hungUp =>
    obtain ⟨-, heq⟩ := Option.ite_none_right_eq_some.1 hs
    obtain rfl := Option.some.inj heq
    exact ⟨rfl, rfl, rfl, rfl, rfl, rfl, id, rfl, le_rfl, id⟩

theorem hangUp_quiet (c : WsClient Json) : c.Quiet c.hangUp := by
  unfold WsClient.hangUp
  split
  · exact ⟨rfl, rfl, rfl, rfl, rfl, rfl, fun _ => rfl, rfl, le_rfl, id⟩
  · exact ⟨rfl, rfl, rfl, rfl, rfl, rfl, id, rfl, le_rfl, id⟩

theorem Inv.quiet (h : c.Inv told last) (hq : c.Quiet c')
    (htorn : c'.pc ≠ .streaming → c'.finished = true ∧ c'.dropped = c'.overflowed)
    (hgone : c'.pc = .gone → c'.overflowed = true → slowClientCode ∈ c'.closes) :
    c'.Inv told last where
  nonempty := hq.offered ▸ h.nonempty
  offered := hq.offered ▸ hq.snapshot ▸ h.offered
  all hfin hov := by
    rw [hq.offered, hq.snapshot, hq.lastSpanMono]
    refine h.all (Bool.eq_false_iff.2 fun hyes => ?_) (hq.overflowed ▸ hov)
    simp [hq.finished hyes] at hfin
  taken hov := by
    rw [hq.offered, hq.enqueued]
    exact h.taken (hq.overflowed ▸ hov)
  lost hov := by
    rw [hq.offered, hq.enqueued]
    exact h.lost (hq.overflowed ▸ hov)
  room := hq.room.trans h.room
  torn := htorn
  gone := hgone

theorem Inv.step (h : c.Inv told last) {e : ClientEvent} (hs : c.step e = some c') :
    c'.Inv told last := by
  have hq := step_quiet hs
  cases e with
  | take =>
    rw [WsClient.step] at hs
    split at hs
    next =>
      obtain ⟨-, heq⟩ := Option.ite_none_right_eq_some.1 hs
      obtain rfl := Option.some.inj heq
      exact h.quiet hq h.torn h.gone
    next => cases hs
  | sent =>
    rw [WsClient.step] at hs
    split at hs
    next =>
      obtain ⟨-, heq⟩ := Option.ite_none_right_eq_some.1 hs
      obtain rfl := Option.some.inj heq
      exact h.quiet hq h.torn h.gone
    next => cases hs
  | ended =>
    obtain ⟨-, heq⟩ := Option.ite_none_right_eq_some.1 hs
    obtain rfl := Option.some.inj heq
    exact h.quiet hq (fun _ => ⟨rfl, rfl⟩) (by simp [tearDown])
  | overflow =>
    obtain ⟨-, heq⟩ := Option.ite_none_right_eq_some.1 hs
    obtain rfl := Option.some.inj heq
    exact h.quiet hq (fun _ => ⟨rfl, rfl⟩) (by simp [tearDown])
  | gathered =>
    obtain ⟨hpc, heq⟩ := Option.ite_none_right_eq_some.1 hs
    obtain rfl := Option.some.inj heq
    have htorn := h.torn (by simp [hpc])
    refine h.quiet hq (fun _ => htorn) fun hgone hov => ?_
    have hdropped : c.dropped = true := htorn.2.trans hov
    simp [hdropped] at hgone
  | closed =>
    obtain ⟨hpc, heq⟩ := Option.ite_none_right_eq_some.1 hs
    obtain rfl := Option.some.inj heq
    exact h.quiet hq (fun _ => h.torn (by simp [hpc])) fun _ _ => by simp
  | hungUp =>
    obtain ⟨-, heq⟩ := Option.ite_none_right_eq_some.1 hs
    obtain rfl := Option.some.inj heq
    exact h.quiet hq h.torn fun hgone hov => List.mem_append_left _ (h.gone hgone hov)

theorem Inv.hangUp (h : c.Inv told last) : c.hangUp.Inv told last := by
  refine h.quiet c.hangUp_quiet ?_ ?_
  · unfold WsClient.hangUp
    split
    · exact fun hpc => ⟨rfl, (h.torn hpc).2⟩
    · exact h.torn
  · unfold WsClient.hangUp
    split <;> exact h.gone

/-! ### What comes later -/

/-- `c'` comes after `c` : what was offered was, and once `c` is over that is all. -/
structure Later (c c' : WsClient Json) : Prop where
  topics : c'.topics = c.topics
  snapshot : c'.snapshot = c.snapshot
  since : c'.since = c.since
  finished : c.finished = true → c'.finished = true
  overflowed : c.overflowed = true → c'.overflowed = true
  offered : c.offered <+: c'.offered
  isOver : c.finished = true ∨ c.overflowed = true →
    c'.offered = c.offered ∧ c'.enqueued = c.enqueued
  served : c'.served = true → c.served = true

theorem Later.refl (c : WsClient Json) : c.Later c :=
  ⟨rfl, rfl, rfl, id, id, List.prefix_rfl, fun _ => ⟨rfl, rfl⟩, id⟩

theorem Later.trans {c'' : WsClient Json} (h : c.Later c') (h' : c'.Later c'') : c.Later c'' where
  topics := h'.topics.trans h.topics
  snapshot := h'.snapshot.trans h.snapshot
  since := h'.since.trans h.since
  finished := h'.finished ∘ h.finished
  overflowed := h'.overflowed ∘ h.overflowed
  offered := h.offered.trans h'.offered
  isOver hover := by
    obtain ⟨hoff, henq⟩ := h.isOver hover
    obtain ⟨hoff', henq'⟩ := h'.isOver (hover.imp h.finished h.overflowed)
    exact ⟨hoff'.trans hoff, henq'.trans henq⟩
  served := h.served ∘ h'.served

theorem Quiet.later (h : c.Quiet c') : c.Later c' :=
  ⟨h.topics, h.snapshot, h.since, h.finished, fun hov => h.overflowed ▸ hov,
    h.offered ▸ List.prefix_rfl, fun _ => ⟨h.offered, h.enqueued⟩, h.served⟩

theorem enqueue_later (c : WsClient Json) (msg : WsMessage Json) : c.Later (c.enqueue msg) := by
  unfold WsClient.enqueue
  split_ifs with hover
  · exact .refl c
  · exact ⟨rfl, rfl, rfl, id, id, List.prefix_append _ _, fun h => absurd h hover, id⟩
  · exact ⟨rfl, rfl, rfl, id, fun _ => rfl, List.prefix_append _ _, fun h => absurd h hover, id⟩

theorem interest_later (topic : Topic) (now : ℚ) (c : WsClient Json) :
    c.Later (WsHub.interest topic now c).2 := by
  unfold WsHub.interest spanDue
  split_ifs
  · exact ⟨rfl, rfl, rfl, id, id, List.prefix_rfl, fun _ => ⟨rfl, rfl⟩, id⟩
  · exact .refl c
  · exact .refl c
  · exact .refl c

theorem receive_later (c : WsClient Json) (d : Dispatched Item) :
    c.Later (c.receive dump d) := by
  simp only [WsClient.receive]
  split
  · exact .refl c
  · split
    · split
      · exact .refl c
      · exact c.enqueue_later _
    · split
      · exact .refl c
      · split
        · exact interest_later _ _ c
        · split
          · exact (interest_later _ _ c).trans (enqueue_later _ _)
          · exact interest_later _ _ c

end WsClient

/-! ## The hub -/

namespace WsHub

variable {h h' : WsHub Item Json}

/-- A dispatch is one for each client. -/
theorem dispatch_eq (h : WsHub Item Json) (d : Dispatched Item) :
    h.dispatch dump d = h.clients.map (WsClient.receive dump d) := by
  have hout : ∀ c : WsClient Json, (¬c.served = true ∨ c.finished = true) →
      ∀ topic now, interest topic now c = (false, c) := fun c hc topic now => by
    refine if_neg fun hi => ?_
    rcases hc with hc | hc
    · exact hc hi.1
    · exact hi.2.2 hc
  unfold dispatch
  split_ifs with hcount hepoch
  · conv_lhs => rw [← List.map_id h.clients]
    refine List.map_congr_left fun c hc => (if_pos (.inl ?_)).symm
    exact List.countP_eq_zero.1 hcount c hc
  · refine List.map_congr_left fun c _ => ?_
    simp only [WsClient.receive, if_pos hepoch]
    by_cases hserved : c.served = true <;> by_cases hfin : c.finished = true <;>
      by_cases hnone : c.topics.filter (· ∈ epochTopics) = [] <;> simp [hserved, hfin, hnone]
  · cases htopic : topicFor d.busTopic with
    | none =>
      conv_lhs => rw [← List.map_id h.clients]
      refine List.map_congr_left fun c _ => ?_
      simp [WsClient.receive, hepoch, htopic]
    | some topic =>
      cases hdata : updateData dump d.busTopic d.item d.later with
      | none =>
        simp only [dispatchUpdate, hdata, List.map_map]
        refine List.map_congr_left fun c _ => ?_
        simp only [WsClient.receive, if_neg hepoch, htopic, hdata, Function.comp_apply]
        split_ifs with hc
        · rw [hout c hc]
        · rfl
      | some data =>
        simp only [dispatchUpdate, hdata, List.map_map]
        refine List.map_congr_left fun c _ => ?_
        simp only [WsClient.receive, if_neg hepoch, htopic, hdata, Function.comp_apply]
        split_ifs with hc <;> simp_all

/-- What holds of the hub. -/
structure Inv (dump : Dump Item Json) (h : WsHub Item Json) : Prop where
  count : h.clientCount ≤ maxWsClients
  since : ∀ c ∈ h.clients, c.since ≤ h.dispatched.length
  clients : ∀ c ∈ h.clients,
    c.Inv (heard dump c.topics (h.dispatched.drop c.since)).2
      (heard dump c.topics (h.dispatched.drop c.since)).1

theorem start_same (h : WsHub Item Json) :
    h.start.clients = h.clients ∧ h.start.dispatched = h.dispatched := by
  unfold start
  split <;> exact ⟨rfl, rfl⟩

/-- Nothing is read, and no client is added. -/
theorem Inv.map (h : Inv dump h') {f : WsClient Json → WsClient Json} {k : WsHub Item Json}
    (hclients : k.clients = h'.clients.map f) (hdispatched : k.dispatched = h'.dispatched)
    (hf : ∀ c : WsClient Json, c.Quiet (f c)) (hinv : ∀ {c told last}, WsClient.Inv told last c →
      (f c).Inv told last) : Inv dump k where
  count := by
    rw [clientCount, hclients, List.countP_map]
    exact (List.countP_mono_left fun c _ hc => (hf c).served hc).trans h.count
  since := by
    rw [hclients, hdispatched]
    intro c hc
    obtain ⟨d, hd, rfl⟩ := List.mem_map.1 hc
    rw [(hf d).since]
    exact h.since d hd
  clients := by
    rw [hclients, hdispatched]
    intro c hc
    obtain ⟨d, hd, rfl⟩ := List.mem_map.1 hc
    rw [(hf d).since, (hf d).topics]
    exact hinv (h.clients d hd)

theorem Inv.same (h : Inv dump h') {k : WsHub Item Json} (hclients : k.clients = h'.clients)
    (hdispatched : k.dispatched = h'.dispatched) : Inv dump k where
  count := by
    rw [clientCount, hclients]
    exact h.count
  since := by
    rw [hclients, hdispatched]
    exact h.since
  clients := by
    rw [hclients, hdispatched]
    exact h.clients

theorem Inv.serve (h : Inv dump h') (asked : List String) (role : String) (state : Json) :
    Inv dump (h'.serve asked role state) := by
  unfold WsHub.serve
  split_ifs with hrefused
  · exact h
  · have hroom := Nat.lt_of_not_le (not_or.1 hrefused).2
    obtain ⟨-, hdispatched⟩ := h'.start_same
    refine ⟨?_, ?_, ?_⟩
    · rw [clientCount, List.countP_append]
      exact Nat.add_le_of_le_sub (by decide) (Nat.le_sub_one_of_lt hroom) |>.trans' <|
        Nat.add_le_add_left List.countP_le_length _
    · simp only [hdispatched]
      intro c hc
      rcases List.mem_append.1 hc with hc | hc
      · exact h.since c hc
      · rw [List.mem_singleton.1 hc]
        exact le_rfl
    · simp only [hdispatched]
      intro c hc
      rcases List.mem_append.1 hc with hc | hc
      · exact h.clients c hc
      · rw [List.mem_singleton.1 hc]
        have hlater := WsClient.enqueue_later
          { topics := wantedTopics asked
            snapshot := snapshotMessage role state (wantedTopics asked)
            since := h'.dispatched.length : WsClient Json }
          (snapshotMessage role state (wantedTopics asked))
        rw [hlater.since, List.drop_length]
        exact WsClient.inv_new _ _ _

/-- A dispatch reaches each client. -/
theorem Inv.dispatch (h : Inv dump h') (d : Dispatched Item) (sub : BusQueue Item) :
    Inv dump { h' with
      sub
      clients := h'.dispatch dump d
      dispatched := h'.dispatched ++ [d] } where
  count := by
    simp only [clientCount, dispatch_eq, List.countP_map]
    exact (List.countP_mono_left fun c _ hc => (c.receive_later d).served hc).trans h.count
  since := by
    simp only [dispatch_eq]
    intro c hc
    obtain ⟨b, hb, rfl⟩ := List.mem_map.1 hc
    rw [(b.receive_later d).since, List.length_append]
    exact (h.since b hb).trans (Nat.le_add_right _ _)
  clients := by
    simp only [dispatch_eq]
    intro c hc
    obtain ⟨b, hb, rfl⟩ := List.mem_map.1 hc
    rw [(b.receive_later d).since, (b.receive_later d).topics,
      List.drop_append_of_le_length (h.since b hb), heard_append]
    exact (h.clients b hb).receive d

theorem Inv.client (h : Inv dump h') {i : ℕ} {c c' : WsClient Json} {e : ClientEvent}
    (hi : h'.clients[i]? = some c) (hs : c.step e = some c') :
    Inv dump { h' with clients := h'.clients.set i c' } := by
  have hc := List.mem_of_getElem? hi
  have hq := WsClient.step_quiet hs
  refine ⟨?_, fun b hb => ?_, fun b hb => ?_⟩
  · refine le_trans ?_ h.count
    obtain ⟨hlt, rfl⟩ := List.getElem?_eq_some_iff.1 hi
    have hserved := hq.served
    have hpos : h'.clients[i].served = true → 0 < h'.clientCount := fun hyes =>
      List.countP_pos_iff.2 ⟨_, hc, hyes⟩
    simp only [clientCount] at hpos ⊢
    rw [List.countP_set hlt]
    split_ifs with hold hnew hnew
    · have := hpos hold
      omega
    · omega
    · exact absurd (hserved hnew) hold
    · omega
  · rcases List.mem_or_eq_of_mem_set hb with hb | rfl
    · exact h.since b hb
    · rw [hq.since]
      exact h.since c hc
  · rcases List.mem_or_eq_of_mem_set hb with hb | rfl
    · exact h.clients b hb
    · rw [hq.since, hq.topics]
      exact (h.clients c hc).step hs

theorem Inv.step (h : Inv dump h') {e : HubEvent Item Json} {k : WsHub Item Json}
    (hs : h'.step dump e = some k) : Inv dump k := by
  cases e with
  | publish busTopic item =>
    obtain rfl := Option.some.inj hs
    exact h.same rfl rfl
  | start =>
    obtain rfl := Option.some.inj hs
    exact h.same h'.start_same.1 h'.start_same.2
  | read now later =>
    rw [WsHub.step] at hs
    split at hs
    next =>
      obtain rfl := Option.some.inj hs
      exact h.dispatch _ _
    next =>
      obtain rfl := Option.some.inj hs
      exact h.same rfl rfl
    next => cases hs
  | serve asked role state =>
    obtain rfl := Option.some.inj hs
    exact h.serve asked role state
  | client i e =>
    obtain ⟨c, hc, hs⟩ := Option.bind_eq_some_iff.1 hs
    obtain ⟨c', hc', rfl⟩ := Option.map_eq_some_iff.1 hs
    exact h.client hc hc'
  | close =>
    obtain rfl := Option.some.inj hs
    exact h.same rfl rfl
  | hangUp =>
    obtain rfl := Option.some.inj hs
    exact h.map rfl rfl WsClient.hangUp_quiet WsClient.Inv.hangUp

/-- Each client is still there, and went on. -/
theorem step_later {e : HubEvent Item Json} {k : WsHub Item Json} (hs : h'.step dump e = some k)
    {i : ℕ} {c : WsClient Json} (hi : h'.clients[i]? = some c) :
    ∃ c', k.clients[i]? = some c' ∧ c.Later c' := by
  have hsame : h'.clients = k.clients → ∃ c', k.clients[i]? = some c' ∧ c.Later c' := fun heq =>
    ⟨c, heq ▸ hi, .refl c⟩
  have hmap : ∀ {f : WsClient Json → WsClient Json}, (∀ c : WsClient Json, c.Later (f c)) →
      k.clients = h'.clients.map f → ∃ c', k.clients[i]? = some c' ∧ c.Later c' := fun hf heq =>
    ⟨_, by rw [heq, List.getElem?_map, hi]; rfl, hf c⟩
  cases e with
  | publish busTopic item =>
    obtain rfl := Option.some.inj hs
    exact hsame rfl
  | start =>
    obtain rfl := Option.some.inj hs
    exact hsame h'.start_same.1.symm
  | read now later =>
    rw [WsHub.step] at hs
    split at hs
    next =>
      obtain rfl := Option.some.inj hs
      exact hmap (fun c => c.receive_later _) (h'.dispatch_eq _)
    next =>
      obtain rfl := Option.some.inj hs
      exact hsame rfl
    next => cases hs
  | serve asked role state =>
    obtain rfl := Option.some.inj hs
    refine ⟨c, ?_, .refl c⟩
    unfold WsHub.serve
    split_ifs
    · exact hi
    · exact List.getElem?_append_left (List.getElem?_eq_some_iff.1 hi).1 ▸ hi
  | client j e =>
    obtain ⟨b, hb, hs⟩ := Option.bind_eq_some_iff.1 hs
    obtain ⟨b', hb', rfl⟩ := Option.map_eq_some_iff.1 hs
    by_cases hij : j = i
    · subst hij
      obtain rfl := Option.some.inj (hi.symm.trans hb)
      refine ⟨b', ?_, (WsClient.step_quiet hb').later⟩
      simp [(List.getElem?_eq_some_iff.1 hi).1]
    · refine ⟨c, ?_, .refl c⟩
      simpa [List.getElem?_set_ne hij] using hi
  | close =>
    obtain rfl := Option.some.inj hs
    exact hsame rfl
  | hangUp =>
    obtain rfl := Option.some.inj hs
    exact hmap (fun c => c.hangUp_quiet.later) rfl

theorem run_later {es : List (HubEvent Item Json)} {k : WsHub Item Json}
    (hrun : run (WsHub.step dump) h' es = some k) {i : ℕ} {c : WsClient Json}
    (hi : h'.clients[i]? = some c) : ∃ c', k.clients[i]? = some c' ∧ c.Later c' := by
  induction es generalizing h' c with
  | nil =>
    obtain rfl := Option.some.inj hrun
    exact ⟨c, hi, .refl c⟩
  | cons e es ih =>
    obtain ⟨k', hs, hrun⟩ := Option.bind_eq_some_iff.1 hrun
    obtain ⟨c', hi', hlater⟩ := step_later hs hi
    obtain ⟨c'', hi'', hlater'⟩ := ih hrun hi'
    exact ⟨c'', hi'', hlater.trans hlater'⟩

/-- The tasks of one `serve`, in the hub. -/
theorem run_client (dump : Dump Item Json) {es : List ClientEvent} {i : ℕ} {c c' : WsClient Json}
    (hi : h'.clients[i]? = some c) (hrun : run WsClient.step c es = some c') :
    ∃ k, run (WsHub.step dump) h' (es.map (HubEvent.client i)) = some k ∧
      k.clients[i]? = some c' := by
  induction es generalizing h' c with
  | nil =>
    obtain rfl := Option.some.inj hrun
    exact ⟨h', rfl, hi⟩
  | cons e es ih =>
    obtain ⟨b, hs, hrun⟩ := Option.bind_eq_some_iff.1 hrun
    have hb : (h'.clients.set i b)[i]? = some b := by
      simp [(List.getElem?_eq_some_iff.1 hi).1]
    obtain ⟨k, hk, hki⟩ := @ih { h' with clients := h'.clients.set i b } b hb hrun
    refine ⟨k, ?_, hki⟩
    have hstep : h'.step dump (.client i e) = some { h' with clients := h'.clients.set i b } := by
      simp [WsHub.step, hi, hs]
    rw [List.map_cons, run, hstep]
    exact hk

/-- A client that overflowed is on its way to be closed. -/
theorem run_closed (hinv : Inv dump h') {i : ℕ} {c : WsClient Json}
    (hi : h'.clients[i]? = some c) (hov : c.overflowed = true) :
    ∃ es : List ClientEvent, ∃ k c',
      run (WsHub.step dump) h' (es.map (HubEvent.client i)) = some k ∧
        k.clients[i]? = some c' ∧ c'.pc = .gone ∧ slowClientCode ∈ c'.closes := by
  have hc := hinv.clients c (List.mem_of_getElem? hi)
  obtain ⟨es, c', hrun, hpc, hslow⟩ : ∃ es : List ClientEvent, ∃ c',
      run WsClient.step c es = some c' ∧ c'.pc = .gone ∧ slowClientCode ∈ c'.closes := by
    cases hpc : c.pc with
    | streaming =>
      refine ⟨[.overflow, .gathered, .closed],
        { c.tearDown with pc := .gone, closes := c.closes ++ [slowClientCode] }, ?_, rfl, by simp⟩
      simp [run, WsClient.step, hpc, hov, WsClient.tearDown]
    | cancelling =>
      have hdropped : c.dropped = true := ((hc.torn (by simp [hpc])).2).trans hov
      refine ⟨[.gathered, .closed],
        { c with pc := .gone, closes := c.closes ++ [slowClientCode] }, ?_, rfl, by simp⟩
      simp [run, WsClient.step, hpc, hdropped]
    | closing =>
      refine ⟨[.closed], { c with pc := .gone, closes := c.closes ++ [slowClientCode] }, ?_, rfl,
        by simp⟩
      simp [run, WsClient.step, hpc]
    | gone => exact ⟨[], c, rfl, hpc, hc.gone hpc hov⟩
  obtain ⟨k, hk, hki⟩ := run_client dump hi hrun
  exact ⟨es, k, c', hk, hki, hpc, hslow⟩

end WsHub

/-! ## All of it -/

/-- What a client of a hub was told : its snapshot, and what there was to hear since it was added,
as far as it was told at all. -/
structure Fed (dump : Dump Item Json) (h : WsHub Item Json) (c : WsClient Json) : Prop where
  since : c.since ≤ h.dispatched.length
  starts : c.offered.head? = some c.snapshot
  contiguous : c.offered <+:
    c.snapshot :: (heard dump c.topics (h.dispatched.drop c.since)).2
  complete : c.finished = false → c.overflowed = false →
    c.offered = c.snapshot :: (heard dump c.topics (h.dispatched.drop c.since)).2
  thinned : ∃ taken, Thinned dump (h.dispatched.drop c.since) taken
    (heard dump c.topics (h.dispatched.drop c.since))
  queued : c.overflowed = false → c.offered = c.sent ++ (c.sending.toList ++ c.outbox)
  lost : c.overflowed = true →
    ∃ msg, c.offered = c.sent ++ (c.sending.toList ++ c.outbox) ++ [msg]
  room : c.outbox.length ≤ sendQueueLimit
  torn : c.pc ≠ .streaming → c.finished = true
  closed : c.pc = .gone → c.overflowed = true → slowClientCode ∈ c.closes

/-- In every state the hub reaches, each client was told without a gap, is told nothing more once
it is over, and is closed if it fell behind. -/
theorem served_without_gaps {h : WsHub Item Json}
    (hreach : Reachable (WsHub.step dump) {} h) :
    h.clientCount ≤ maxWsClients ∧ ∀ (i : ℕ) (c : WsClient Json), h.clients[i]? = some c →
      Fed dump h c ∧
      (∀ es k, run (WsHub.step dump) h es = some k → ∃ c', k.clients[i]? = some c' ∧ c.Later c') ∧
      (c.overflowed = true → ∃ es : List ClientEvent, ∃ k c',
        run (WsHub.step dump) h (es.map (HubEvent.client i)) = some k ∧
          k.clients[i]? = some c' ∧ c'.pc = .gone ∧ slowClientCode ∈ c'.closes) := by
  have hinv : WsHub.Inv dump h :=
    hreach.invariant (WsHub.Inv dump) ⟨Nat.zero_le _, by simp, by simp⟩
      fun _ _ _ _ hi hs => hi.step hs
  refine ⟨hinv.count, fun i c hi => ⟨?_, fun es k hrun => WsHub.run_later hrun hi,
    WsHub.run_closed hinv hi⟩⟩
  have hmem := List.mem_of_getElem? hi
  have hc := hinv.clients c hmem
  refine ⟨hinv.since c hmem, ?_, hc.offered, fun hfin hov => (hc.all hfin hov).1,
    thinned_heard _ _, hc.taken, hc.lost, hc.room, fun hpc => (hc.torn hpc).1, hc.gone⟩
  obtain ⟨t, ht⟩ := hc.offered
  cases hoff : c.offered with
  | nil => exact absurd hoff hc.nonempty
  | cons msg offered =>
    rw [hoff] at ht
    exact congrArg some (List.cons.inj ht).1

/-- A socket that asked for the spans, when an epoch and a span are read. -/
theorem served_without_gaps_span :
    ∃ (h : WsHub Unit Unit) (c : WsClient Unit), h.clients[0]? = some c ∧ c.offered.length = 2 ∧
      h.clientCount ≤ maxWsClients ∧
      Fed ⟨some, fun data _ => some data, some, id, fun _ => id⟩ h c := by
  have hrun : (run (WsHub.step ⟨some, fun data _ => some data, some, id, fun _ => id⟩) {}
      [.start, .serve ["span"] "rover" (), .publish "state.epoch" (), .publish "state.spectrum" (),
        .read 0 0, .read 1 1] |>.bind fun h : WsHub Unit Unit =>
          (h.clients[0]?).map fun c => c.offered.length) = some 2 := by decide
  obtain ⟨h, hh, hc⟩ := Option.bind_eq_some_iff.1 hrun
  obtain ⟨c, hi, hlength⟩ := Option.map_eq_some_iff.1 hc
  obtain ⟨hcount, hclients⟩ := served_without_gaps ⟨_, hh⟩
  exact ⟨h, c, hi, hlength, hcount, (hclients 0 c hi).1⟩

end Ws

end Mtrtk
