import Mtrtk.Link
import Mtrtk.Run

/-!
# VALSETs and the answers they do not get

A task sends CFG-VALSETs one at a time, all with the timeout `T`. The receiver answers in
the order of the requests, and the answer to each is timely, late or lost (`Fate`) : it is
dispatched before the request's wait gives up, after that and before another `T` is over,
or never. `ValsetSystem` runs that under every timing. Its only restriction is that no two
requests in a row miss their answer.

A request that gives up books a credit, and the next answer within `T` is discarded for it.
`valset_stale_credit_law` : no request gets another's answer, a late answer is discarded,
and a timely answer is missed only right behind a lost one.
-/

namespace Mtrtk

/-- What becomes of the answer to a request. -/
inductive Fate
  | timely | late | lost
  deriving DecidableEq, Repr

/-- The task and the link, with what the receiver's side has done : `written` requests are
written, the answers before `answered` are dispatched or lost, and `overAt` are the times at
which the waits ended. -/
structure ValsetSystem where
  client : Client := {}
  written : ℕ := 0
  answered : ℕ := 0
  overAt : List ℚ := []

inductive ValsetEvent
  | issue | wrote
  | hear (i : ℕ)
  | wake
  deriving DecidableEq, Repr

namespace ValsetSystem

variable (T : ℚ) (fate : ℕ → Fate) (answer : ℕ → LinkFrame)

/-- The answer to request `i` can be dispatched at `t` : it is the next that is not lost,
its request is written, and the wait has not ended, or has ended within `T`, as its fate
says. -/
def CanHear (s : ValsetSystem) (t : ℚ) (i : ℕ) : Prop :=
  s.answered ≤ i ∧ (∀ j < i, s.answered ≤ j → fate j = .lost) ∧ i < s.written ∧
    match fate i with
    | .timely => s.overAt.length ≤ i
    | .late => i < s.overAt.length ∧ t < s.overAt.getD i 0 + T
    | .lost => False

instance (s : ValsetSystem) (t : ℚ) (i : ℕ) : Decidable (s.CanHear T fate t i) := by
  unfold CanHear
  cases fate i <;> infer_instance

/-- No timely answer is still to come at the deadline of its request. -/
def CanWake (s : ValsetSystem) (t : ℚ) : Prop :=
  fate s.overAt.length = .timely → s.answered ≤ s.overAt.length →
    ∀ deadline ∈ s.client.call.bind Call.deadline, t < deadline

instance (s : ValsetSystem) (t : ℚ) : Decidable (s.CanWake fate t) :=
  inferInstanceAs (Decidable (_ → _ → _))

/-- The task makes its next request, its write is done, an answer is dispatched, or the
task's wait ends. -/
def step (s : ValsetSystem) (x : ℚ × ValsetEvent) : Option ValsetSystem :=
  if s.client.now ≤ x.1 then
    match x.2 with
    | .issue =>
      if s.client.call.isNone then
        some { s with client := { s.client.issue [valsetKey] T with now := x.1 } }
      else none
    | .wrote =>
      (s.client.wrote x.1).map fun c => { s with client := c, written := s.written + 1 }
    | .hear i =>
      if s.CanHear T fate x.1 i then
        some { s with client := s.client.hear x.1 (answer i), answered := i + 1 }
      else none
    | .wake =>
      if s.CanWake fate x.1 then
        (s.client.wake x.1).map fun c => { s with client := c, overAt := s.overAt ++ [x.1] }
      else none
  else none

/-- What a request's end says about the answers. -/
structure Law (s : ValsetSystem) : Prop where
  /-- A request that got an answer got its own. -/
  own : ∀ i f, s.client.outcomes[i]? = some (.ok f) → f = answer i ∧ fate i = .timely
  /-- A request without its timely answer comes right behind a lost one. -/
  missed : ∀ i e, s.client.outcomes[i]? = some (.error e) →
    e = .timeout ∧ (fate i = .timely → 0 < i ∧ fate (i - 1) = .lost)

end ValsetSystem

/-! ## The invariant -/

theorem register_valset {l : Link} (hq : l.waiters valsetKey = []) :
    l.register [valsetKey] = ([l.fresh], (l.register [valsetKey]).2) ∧
      (l.register [valsetKey]).2.stale = l.stale ∧
      (l.register [valsetKey]).2.Awaits valsetKey l.fresh ∧
      ((l.register [valsetKey]).2.cell l.fresh).robbed = false :=
  ⟨rfl, rfl, ⟨by simp [Link.register, hq], by simp [Link.register]⟩, by simp [Link.register]⟩

/-- Request `n` is under way with the waiter `w` : no answer has reached it yet, it has got
its own, or its own was discarded for a lost one before it. -/
inductive Pending (fate : ℕ → Fate) (answer : ℕ → LinkFrame) (l : Link) (n answered w : ℕ) : Prop
  | waiting (h : l.Awaits valsetKey w) (ha : answered ≤ n)
      (hr : (l.cell w).robbed = true → 0 < n ∧ fate (n - 1) = .late)
  | got (h : l.Got valsetKey w (answer n)) (ha : answered = n + 1) (hf : fate n = .timely)
  | robbed (h : l.Awaits valsetKey w) (ha : answered = n + 1) (hf : fate n = .timely)
      (hr : (l.cell w).robbed = true) (hn : 0 < n) (hlost : fate (n - 1) = .lost)

/-- The credit for the request before `n`, when its answer is missing and the next one has
not come. -/
def Owed (T : ℚ) (fate : ℕ → Fate) (s : ValsetSystem) (n : ℕ) : Prop :=
  ∃ e, n = s.answered + 1 ∧ fate s.answered ≠ .timely ∧ s.overAt[s.answered]? = some e ∧
    s.client.link.stale valsetKey = [e + T]

/-- `n` requests are over. -/
structure ValsetInv (T : ℚ) (fate : ℕ → Fate) (answer : ℕ → LinkFrame) (s : ValsetSystem)
    (n : ℕ) : Prop where
  law : s.Law fate answer
  outcomes : s.client.outcomes.length = n
  overAt : s.overAt.length = n
  credit : (s.client.link.stale valsetKey = [] ∧ n ≤ s.answered) ∨ Owed T fate s n
  idle : s.client.call = none →
    s.client.link.waiters valsetKey = [] ∧ s.written = n ∧ s.answered ≤ n
  busy : ∀ call, s.client.call = some call →
    ∃ w, call.keys = [valsetKey] ∧ call.waiters = [w] ∧ call.timeout = T ∧
      s.written = n + call.deadline.toList.length ∧
      Pending fate answer s.client.link n s.answered w

variable {T : ℚ} {fate : ℕ → Fate} {answer : ℕ → LinkFrame} {s : ValsetSystem} {n : ℕ} {t : ℚ}

theorem valsetInv_init : ValsetInv T fate answer {} 0 :=
  ⟨⟨nofun, nofun⟩, rfl, rfl, Or.inl ⟨rfl, le_rfl⟩, fun _ => ⟨rfl, rfl, le_rfl⟩, nofun⟩

theorem ValsetInv.issue (h : ValsetInv T fate answer s n) (hc : s.client.call = none) :
    ValsetInv T fate answer
      { s with client := { s.client.issue [valsetKey] T with now := t } } n := by
  obtain ⟨hq, hw, ha⟩ := h.idle hc
  obtain ⟨hreg, hst, haw, hr⟩ := register_valset hq
  refine ⟨⟨h.law.own, h.law.missed⟩, h.outcomes, h.overAt, ?_, nofun, ?_⟩
  · exact h.credit
  · rintro call hcall
    obtain rfl := Option.some.inj hcall
    exact ⟨s.client.link.fresh, rfl, rfl, rfl, by simpa using hw,
      .waiting haw ha fun h => by rw [Client.issue, hr] at h; simp at h⟩

theorem ValsetInv.wrote (h : ValsetInv T fate answer s n) {c : Client}
    (hc : s.client.wrote t = some c) :
    ValsetInv T fate answer { s with client := c, written := s.written + 1 } n := by
  rw [Client.wrote] at hc
  split at hc
  next keys ws timeout hcall =>
    obtain rfl := Option.some.inj hc
    refine ⟨⟨h.law.own, h.law.missed⟩, h.outcomes, h.overAt, h.credit, nofun, ?_⟩
    rintro call hcall'
    obtain rfl := Option.some.inj hcall'
    obtain ⟨w, hk, hw, hT, hwr, hp⟩ := h.busy _ hcall
    exact ⟨w, hk, hw, hT, by simpa using hwr, hp⟩
  next => simp at hc

/-- An answer to no earlier request is the timely answer to the one under way. -/
theorem ValsetInv.current (h : ValsetInv T fate answer s n) {i : ℕ} (hc : s.CanHear T fate t i)
    (hi : n ≤ i) : i = n ∧ fate n = .timely ∧ ∃ call w, s.client.call = some call ∧
      call.keys = [valsetKey] ∧ call.waiters = [w] ∧ call.timeout = T ∧
      s.written = n + call.deadline.toList.length ∧ s.client.link.Awaits valsetKey w := by
  obtain ⟨hle, -, hwr, hfate⟩ := hc
  cases hcall : s.client.call with
  | none =>
    have := (h.idle hcall).2.1
    omega
  | some call =>
    obtain ⟨w, hk, hw, hT, hwr', hp⟩ := h.busy call hcall
    have hdl : call.deadline.toList.length ≤ 1 := by cases call.deadline <;> simp
    obtain rfl : i = n := by omega
    refine ⟨rfl, ?_, call, w, rfl, hk, hw, hT, hwr', ?_⟩
    · rw [h.overAt] at hfate
      cases hf : fate i with
      | timely => rfl
      | late =>
        rw [hf] at hfate
        omega
      | lost => simp [hf] at hfate
    · cases hp with
      | waiting haw => exact haw
      | got _ ha => omega
      | robbed _ ha => omega

/-- The answer to the request under way reaches it where nothing is owed. -/
theorem ValsetInv.hear_own (h : ValsetInv T fate answer s n) {call : Call} {w : ℕ} {l : Link}
    (hcall : s.client.call = some call) (hk : call.keys = [valsetKey]) (hw : call.waiters = [w])
    (hT : call.timeout = T) (hwr : s.written = n + call.deadline.toList.length)
    (hst : l.stale valsetKey = []) (hp : Pending fate answer l n (n + 1) w) :
    ValsetInv T fate answer
      { s with client := { s.client with now := t, link := l }, answered := n + 1 } n := by
  refine ⟨⟨h.law.own, h.law.missed⟩, h.outcomes, h.overAt, Or.inl ⟨hst, Nat.le_succ n⟩, ?_, ?_⟩
  · simp [hcall]
  · rintro call' hcall'
    obtain rfl := Option.some.inj (hcall.symm.trans hcall')
    exact ⟨w, hk, hw, hT, hwr, hp⟩

/-- A late answer is dispatched while it is owed, its request being the last that ended. -/
theorem ValsetInv.late (h : ValsetInv T fate answer s n) {i : ℕ} (hc : s.CanHear T fate t i)
    (hf : fate i = .late) : ∃ e, i = s.answered ∧ n = i + 1 ∧
      s.client.link.stale valsetKey = [e + T] ∧ t < e + T := by
  obtain ⟨hle, hlost, -, hfate⟩ := hc
  rw [hf, h.overAt] at hfate
  rcases h.credit with ⟨-, hn⟩ | ⟨e, hn, -, he, hst⟩
  · omega
  · obtain rfl : i = s.answered := by omega
    exact ⟨e, rfl, hn, hst, by simpa [List.getD_eq_getElem?_getD, he] using hfate.2⟩

theorem ValsetInv.hear (hk : ∀ i, keysFor (answer i) = [valsetKey])
    (h : ValsetInv T fate answer s n) {i : ℕ} (hc : s.CanHear T fate t i) :
    ValsetInv T fate answer
      { s with client := s.client.hear t (answer i), answered := i + 1 } n ∧
      (s.client.hear t (answer i)).link.stale valsetKey = [] := by
  rcases h.credit with ⟨hst, hle⟩ | ⟨e, hn, hp, he, hst⟩
  · obtain ⟨rfl, hf, call, w, hcall, hck, hw, hT, hwr, haw⟩ := h.current hc (hle.trans hc.1)
    have hst' : (s.client.hear t (answer i)).link.stale valsetKey = [] := by
      rw [Client.hear, (Link.deliver_stale_unowed (hk i) hst).1, hst]
    exact ⟨h.hear_own hcall hck hw hT hwr hst' (.got (haw.deliver (hk i) hst) rfl hf), hst'⟩
  set l : Link :=
    { s.client.link with stale := Function.update s.client.link.stale valsetKey [] } with hl
  have hlst : l.stale valsetKey = [] := by simp [hl]
  cases hf : fate s.answered with
  | timely => exact (hp hf).elim
  | late =>
    -- the late answer itself : its credit is live, so it is discarded
    obtain rfl : i = s.answered := by
      by_contra hne
      have := hc.2.1 s.answered (by have := hc.1; omega) le_rfl
      simp [hf] at this
    obtain ⟨e', -, -, hst', hlive⟩ := h.late hc hf
    have hdel : s.client.link.deliver t (answer s.answered) = l.rob valsetKey :=
      Link.deliver_owed (hk _) hst' hlive
    have hrob : (l.rob valsetKey).stale = l.stale := (l.rob_future valsetKey).2.1
    have hst' : (s.client.hear t (answer s.answered)).link.stale valsetKey = [] := by
      rw [Client.hear, hdel, hrob, hlst]
    refine ⟨⟨⟨h.law.own, h.law.missed⟩, h.outcomes, h.overAt, Or.inl ⟨hst', hn.le⟩, ?_, ?_⟩, hst'⟩
    · intro hcall
      obtain ⟨hq, hwr, ha⟩ := h.idle hcall
      refine ⟨?_, hwr, hn.ge⟩
      rw [Client.hear, hdel, Link.rob_idle (show l.waiters valsetKey = [] from hq)]
      exact hq
    · intro call hcall
      obtain ⟨w, hck, hw, hT, hwr, hpend⟩ := h.busy call hcall
      cases hpend with
      | waiting haw ha hr =>
        have hrob' := Link.Awaits.rob (show l.Awaits valsetKey w from ⟨haw.queue, haw.future⟩)
        refine ⟨w, hck, hw, hT, hwr, ?_⟩
        rw [Client.hear, hdel]
        exact .waiting hrob'.1 hn.ge fun _ => ⟨by omega, by rw [hn]; exact hf⟩
      | got _ ha => omega
      | robbed _ ha => omega
  | lost =>
    -- the answer to the request after a lost one : it pays the credit, or comes too late to
    have hi : n ≤ i := by
      rcases Nat.lt_or_ge s.answered i with hlt | hge
      · omega
      · obtain rfl : i = s.answered := le_antisymm hge hc.1
        have := hc.2.2.2
        simp [hf] at this
    obtain ⟨rfl, hfn, call, w, hcall, hck, hw, hT, hwr, haw⟩ := h.current hc hi
    have hlaw : l.Awaits valsetKey w := ⟨haw.queue, haw.future⟩
    rcases lt_or_ge t (e + T) with hlive | hlapsed
    · have hdel : s.client.link.deliver t (answer i) = l.rob valsetKey :=
        Link.deliver_owed (hk _) hst hlive
      obtain ⟨haw', hrobbed⟩ := hlaw.rob
      rw [Client.hear, hdel]
      have hst' : (l.rob valsetKey).stale valsetKey = [] := by
        rw [(l.rob_future valsetKey).2.1, hlst]
      exact ⟨h.hear_own hcall hck hw hT hwr hst'
        (.robbed haw' rfl hfn hrobbed (by omega) (by rw [hn]; exact hf)), hst'⟩
    · have hdel : s.client.link.deliver t (answer i) = l.deliver t (answer i) :=
        Link.deliver_lapsed (hk _) hst hlapsed
      rw [Client.hear, hdel]
      have hst' : (l.deliver t (answer i)).stale valsetKey = [] := by
        rw [(Link.deliver_stale_unowed (hk i) hlst).1, hlst]
      exact ⟨h.hear_own hcall hck hw hT hwr hst' (.got (hlaw.deliver (hk i) hlst) rfl hfn), hst'⟩

/-- A wait that is over without an answer books a credit, unless it was robbed. -/
theorem retire_valset {l : Link} {w : ℕ} (h : l.Awaits valsetKey w)
    (hs : l.stale valsetKey = []) (now timeout : ℚ) :
    (l.retire now timeout [valsetKey] [w]).waiters valsetKey = [] ∧
      (l.retire now timeout [valsetKey] [w]).stale valsetKey =
        if (l.cell w).robbed then [] else [now + timeout] := by
  have hany : (l.futures [w]).any Future.answered = false := by
    simp [Link.futures, h.future, Future.answered]
  have hdone : (l.cell w).future.done = false := by rw [h.future]; rfl
  have hack : valsetKey.isAck = true := rfl
  cases hr : (l.cell w).robbed <;>
    simp [Link.retire, hany, Link.retireEach, hdone, hr, hack, Link.purge, h.queue, hs]

/-- A wait that is over with an answer leaves the link as it is. -/
theorem retire_got {l : Link} {w : ℕ} {f : LinkFrame} {now timeout : ℚ} (h : l.Got valsetKey w f) :
    l.retire now timeout [valsetKey] [w] = l := by
  have hdone : (l.cell w).future.done = true := by rw [h.future]; rfl
  simp [Link.retire, Link.retireEach, hdone]

/-- The law for one more request. -/
theorem ValsetSystem.Law.concat {s' : ValsetSystem} {r : Except LinkError LinkFrame}
    (h : s.Law fate answer) (hn : s.client.outcomes.length = n)
    (hout : s'.client.outcomes = s.client.outcomes ++ [r])
    (hok : ∀ f, r = .ok f → f = answer n ∧ fate n = .timely)
    (herr : ∀ e, r = .error e →
      e = .timeout ∧ (fate n = .timely → 0 < n ∧ fate (n - 1) = .lost)) :
    s'.Law fate answer := by
  have hsplit : ∀ i x, s'.client.outcomes[i]? = some x →
      s.client.outcomes[i]? = some x ∨ (i = n ∧ x = r) := by
    intro i x hi
    rw [hout] at hi
    rcases Nat.lt_or_ge i s.client.outcomes.length with hlt | hge
    · exact Or.inl (by rwa [List.getElem?_append_left hlt] at hi)
    · have hi' := (List.getElem?_eq_some_iff.1 hi).1
      rw [List.length_append, List.length_singleton] at hi'
      obtain rfl : i = s.client.outcomes.length := by omega
      rw [List.getElem?_concat_length] at hi
      exact Or.inr ⟨hn, (Option.some.inj hi).symm⟩
  constructor
  · rintro i f hi
    rcases hsplit i _ hi with hi | ⟨rfl, hr⟩
    · exact h.own i f hi
    · exact hok f hr.symm
  · rintro i e hi
    rcases hsplit i _ hi with hi | ⟨rfl, hr⟩
    · exact h.missed i e hi
    · exact herr e hr.symm

theorem ValsetInv.wake (hpair : ∀ i, fate i = .timely ∨ fate (i + 1) = .timely)
    (h : ValsetInv T fate answer s n) (hg : s.CanWake fate t) {c : Client}
    (hc : s.client.wake t = some c) :
    ValsetInv T fate answer { s with client := c, overAt := s.overAt ++ [t] } (n + 1) := by
  rw [Client.wake] at hc
  split at hc
  next keys ws timeout deadline hcall =>
    obtain ⟨w, rfl, rfl, rfl, hwr, hp⟩ := h.busy _ hcall
    obtain ⟨hdone, hc⟩ := Option.ite_none_right_eq_some.1 hc
    obtain rfl := Option.some.inj hc
    simp only [Option.toList_some, List.length_singleton] at hwr
    have hover : (s.overAt ++ [t]).length = n + 1 := by simp [h.overAt]
    have hlen : (s.client.outcomes ++ [requestResult (s.client.link.futures [w])]).length =
        n + 1 := by
      simp [h.outcomes]
    cases hp with
    | got hgot ha hf =>
      have hres : requestResult (s.client.link.futures [w]) = .ok (answer n) := by
        simp only [Link.futures, List.map_cons, hgot.future]
        rfl
      have hst : s.client.link.stale valsetKey = [] := by
        rcases h.credit with ⟨hst, -⟩ | ⟨e, hn, -⟩
        · exact hst
        · omega
      refine ⟨h.law.concat h.outcomes rfl (fun f hf' => ?_) (fun e he => ?_), hlen, hover, ?_, ?_,
        nofun⟩
      · exact ⟨by simpa [hres] using hf'.symm, hf⟩
      · simp [hres] at he
      · exact Or.inl ⟨by rw [retire_got hgot, hst], ha.ge⟩
      · intro _
        exact ⟨by rw [retire_got hgot, hgot.queue], hwr, ha.le⟩
    | waiting haw ha hr =>
      -- the request gives up : its answer is late or lost, the one before it was timely
      have hres : requestResult (s.client.link.futures [w]) = .error .timeout := by
        simp only [Link.futures, List.map_cons, haw.future]
        rfl
      have hlate : deadline ≤ t := by
        simpa [Link.futures, haw.future, Future.done] using hdone
      have hf : fate n ≠ .timely := by
        intro hf
        have hlt := hg (by rw [h.overAt, hf]) (by rw [h.overAt]; exact ha) deadline
          (by simp [hcall])
        exact absurd hlate (not_le.2 hlt)
      have hpred : ∀ m, n = m + 1 → fate m = .timely := fun m hm =>
        (hpair m).resolve_right (hm ▸ hf)
      obtain ⟨hst, hle⟩ : s.client.link.stale valsetKey = [] ∧ n ≤ s.answered := by
        rcases h.credit with hst | ⟨e, hn, hp, -⟩
        · exact hst
        · exact (hp (hpred _ hn)).elim
      have hnot : (s.client.link.cell w).robbed = false := by
        by_contra hrob
        obtain ⟨hpos, hl⟩ := hr (by simpa using hrob)
        simp [hpred (n - 1) (by omega)] at hl
      obtain ⟨hq, hcredit⟩ := retire_valset haw hst t timeout
      obtain rfl : n = s.answered := by omega
      refine ⟨h.law.concat h.outcomes rfl (fun f hf' => ?_) (fun e he => ?_), hlen, hover,
        Or.inr ⟨t, rfl, hf, ?_, ?_⟩, fun _ => ⟨hq, hwr, Nat.le_succ _⟩, nofun⟩
      · simp [hres] at hf'
      · exact ⟨by simpa [hres] using he.symm, fun h => (hf h).elim⟩
      · rw [← h.overAt, List.getElem?_concat_length]
      · rw [hcredit, hnot]
        simp
    | robbed haw ha hf hr hn hlost =>
      have hres : requestResult (s.client.link.futures [w]) = .error .timeout := by
        simp only [Link.futures, List.map_cons, haw.future]
        rfl
      have hst : s.client.link.stale valsetKey = [] := by
        rcases h.credit with ⟨hst, -⟩ | ⟨e, hn, -⟩
        · exact hst
        · omega
      obtain ⟨hq, hcredit⟩ := retire_valset haw hst t timeout
      refine ⟨h.law.concat h.outcomes rfl (fun f hf' => ?_) (fun e he => ?_), hlen, hover,
        Or.inl ⟨?_, ha.ge⟩, fun _ => ⟨hq, hwr, ha.le⟩, nofun⟩
      · simp [hres] at hf'
      · exact ⟨by simpa [hres] using he.symm, fun _ => ⟨hn, hlost⟩⟩
      · rw [hcredit, hr]
        simp
  next => simp at hc

/-! ## Every run -/

/-- What a step can be. -/
theorem ValsetSystem.step_cases {s' : ValsetSystem} {e : ValsetEvent}
    (h : ValsetSystem.step T fate answer s (t, e) = some s') :
    (e = .issue ∧ s.client.call = none ∧
        s' = { s with client := { s.client.issue [valsetKey] T with now := t } }) ∨
      (e = .wrote ∧ ∃ c, s.client.wrote t = some c ∧
        s' = { s with client := c, written := s.written + 1 }) ∨
      (∃ i, e = .hear i ∧ s.CanHear T fate t i ∧
        s' = { s with client := s.client.hear t (answer i), answered := i + 1 }) ∨
      (e = .wake ∧ s.CanWake fate t ∧ ∃ c, s.client.wake t = some c ∧
        s' = { s with client := c, overAt := s.overAt ++ [t] }) := by
  obtain ⟨-, h⟩ := Option.ite_none_right_eq_some.1 (show _ = some s' from h)
  rcases e with _ | _ | i | _
  · obtain ⟨hc, h⟩ := Option.ite_none_right_eq_some.1 (show _ = some s' from h)
    exact Or.inl ⟨rfl, Option.isNone_iff_eq_none.1 hc, (Option.some.inj h).symm⟩
  · obtain ⟨c, hc, rfl⟩ := Option.map_eq_some_iff.1 h
    exact Or.inr (Or.inl ⟨rfl, c, hc, rfl⟩)
  · obtain ⟨hc, h⟩ := Option.ite_none_right_eq_some.1 (show _ = some s' from h)
    exact Or.inr (Or.inr (Or.inl ⟨i, rfl, hc, (Option.some.inj h).symm⟩))
  · obtain ⟨hg, h⟩ := Option.ite_none_right_eq_some.1 (show _ = some s' from h)
    obtain ⟨c, hc, rfl⟩ := Option.map_eq_some_iff.1 h
    exact Or.inr (Or.inr (Or.inr ⟨rfl, hg, c, hc, rfl⟩))

theorem valset_invariant (hk : ∀ i, keysFor (answer i) = [valsetKey])
    (hpair : ∀ i, fate i = .timely ∨ fate (i + 1) = .timely)
    (hs : Reachable (ValsetSystem.step T fate answer) {} s) : ∃ n, ValsetInv T fate answer s n := by
  refine hs.invariant (fun s => ∃ n, ValsetInv T fate answer s n) ⟨0, valsetInv_init⟩ ?_
  rintro s ⟨t, e⟩ s' - ⟨n, h⟩ hstep
  obtain ⟨-, hc, rfl⟩ | ⟨-, c, hc, rfl⟩ | ⟨i, -, hc, rfl⟩ | ⟨-, hg, c, hc, rfl⟩ :=
    ValsetSystem.step_cases hstep
  · exact ⟨n, h.issue hc⟩
  · exact ⟨n, h.wrote hc⟩
  · exact ⟨n, (h.hear hk hc).1⟩
  · exact ⟨n + 1, h.wake hpair hg hc⟩

/-- The requests that end without an answer. -/
def timeouts (outcomes : List (Except LinkError LinkFrame)) : ℕ :=
  outcomes.countP fun r => !r.isOk

/-- How many of the first `n` answers have the fate `f`. -/
def countFate (fate : ℕ → Fate) (f : Fate) (n : ℕ) : ℕ :=
  (List.range n).countP fun i => fate i = f

theorem countFate_succ (fate : ℕ → Fate) (f : Fate) (n : ℕ) :
    countFate fate f (n + 1) = countFate fate f n + if fate n = f then 1 else 0 := by
  simp [countFate, List.range_succ, List.countP_append, List.countP_singleton]

/-- Where a request fails only by its own answer or a lost one before it, a lost answer
costs at most two requests and a late one its own. -/
theorem timeouts_le : ∀ outcomes : List (Except LinkError LinkFrame),
    (∀ i e, outcomes[i]? = some (.error e) →
      fate i = .timely → 0 < i ∧ fate (i - 1) = .lost) →
    timeouts outcomes +
        (if 0 < outcomes.length ∧ fate (outcomes.length - 1) = .lost then 1 else 0) ≤
      countFate fate .late outcomes.length + 2 * countFate fate .lost outcomes.length := by
  intro outcomes
  induction outcomes using List.reverseRecOn with
  | nil => simp [timeouts]
  | append_singleton os r ih =>
    intro h
    have ih := ih fun i e hi => h i e (by
      rw [List.getElem?_append_left (List.getElem?_eq_some_iff.1 hi).1, hi])
    have hlast : r.isOk = false →
        fate os.length = .timely → 0 < os.length ∧ fate (os.length - 1) = .lost := by
      cases r with
      | ok f => simp [Except.isOk, Except.toBool]
      | error e => exact fun _ => h os.length e List.getElem?_concat_length
    have hcount : timeouts (os ++ [r]) = timeouts os + if r.isOk = false then 1 else 0 := by
      cases hr : r.isOk <;> simp [timeouts, List.countP_append, hr]
    rw [hcount, List.length_append, List.length_singleton, countFate_succ, countFate_succ,
      Nat.add_sub_cancel]
    cases hf : fate os.length with
    | timely =>
      by_cases hr : r.isOk = false
      · rw [if_pos (hlast hr hf)] at ih
        simp [hr]
        omega
      · simp [hr]
        omega
    | late =>
      simp only [reduceCtorEq, if_false, if_true, and_false]
      split_ifs at ih ⊢ <;> omega
    | lost =>
      simp only [reduceCtorEq, if_false, if_true, and_true, Nat.succ_pos]
      split_ifs at ih ⊢ <;> omega

/-- The stale-credit law : in every reachable state no request has got the answer to
another, a late answer has gone to none, a request with a timely answer has failed only
right behind a lost one, and so at most one request for each late answer and two for each
lost one have timed out; and the next answer finds no dead credit. -/
theorem valset_stale_credit_law (T : ℚ) (fate : ℕ → Fate) (answer : ℕ → LinkFrame)
    (hanswer : ∀ i, keysFor (answer i) = [valsetKey] ∧ (answer i).origin = i)
    (hpair : ∀ i, fate i = .timely ∨ fate (i + 1) = .timely)
    (s : ValsetSystem) (hs : Reachable (ValsetSystem.step T fate answer) {} s) :
    (∀ (i : ℕ) (f : LinkFrame), s.client.outcomes[i]? = some (.ok f) → f.origin = i) ∧
      (∀ (i j : ℕ) (f : LinkFrame), fate i = .late → s.client.outcomes[j]? = some (.ok f) →
        f.origin ≠ i) ∧
      (∀ t i s', fate i = .late → ValsetSystem.step T fate answer s (t, .hear i) = some s' →
        s'.client.link.waiters = s.client.link.waiters ∧
          ∀ w, (s'.client.link.cell w).future = (s.client.link.cell w).future) ∧
      (∀ i e, fate i = .timely → s.client.outcomes[i]? = some (.error e) →
        0 < i ∧ fate (i - 1) = .lost) ∧
      timeouts s.client.outcomes ≤ countFate fate .late s.client.outcomes.length +
        2 * countFate fate .lost s.client.outcomes.length ∧
      ∀ t i s', ValsetSystem.step T fate answer s (t, .hear i) = some s' →
        ∀ c ∈ s'.client.link.stale valsetKey, t < c := by
  have hk : ∀ i, keysFor (answer i) = [valsetKey] := fun i => (hanswer i).1
  obtain ⟨n, h⟩ := valset_invariant hk hpair hs
  have hhear : ∀ {t i s'}, ValsetSystem.step T fate answer s (t, .hear i) = some s' →
      s.CanHear T fate t i ∧ s'.client = s.client.hear t (answer i) := by
    intro t i s' hstep
    obtain ⟨he, -⟩ | ⟨he, -⟩ | ⟨j, he, hc, rfl⟩ | ⟨he, -⟩ := ValsetSystem.step_cases hstep
    · simp at he
    · simp at he
    · obtain rfl : i = j := by simpa using he
      exact ⟨hc, rfl⟩
    · simp at he
  refine ⟨fun i f hi => ?_, fun i j f hf hj => ?_, fun t i s' hf hstep => ?_,
    fun i e hf hi => (h.law.missed i e hi).2 hf, ?_, fun t i s' hstep c hc => ?_⟩
  · obtain ⟨rfl, -⟩ := h.law.own i f hi
    exact (hanswer i).2
  · obtain ⟨rfl, hj'⟩ := h.law.own j f hj
    rw [(hanswer j).2]
    rintro rfl
    simp [hf] at hj'
  · obtain ⟨hc, hclient⟩ := hhear hstep
    obtain ⟨e, -, -, hst, hlive⟩ := h.late hc hf
    rw [hclient, Client.hear, Link.deliver_owed (hk i) hst hlive]
    exact ⟨(Link.rob_future _ _).1, (Link.rob_future _ _).2.2⟩
  · have := timeouts_le s.client.outcomes fun i e hi => (h.law.missed i e hi).2
    omega
  · obtain ⟨hcan, hclient⟩ := hhear hstep
    rw [hclient, (h.hear hk hcan).2] at hc
    simp at hc

/-- The first answer is lost. -/
def firstLost (i : ℕ) : Fate := if i = 0 then .lost else .timely

def valsetAck (i : ℕ) : LinkFrame := ⟨.ackAck, [0x06, 0x8A], [], i⟩

/-- The credit of the first request eats the answer to the second, the third is answered. -/
def lostRun : List (ℚ × ValsetEvent) :=
  [(0, .issue), (0, .wrote), (2, .wake), (2, .issue), (2, .wrote), (3, .hear 1), (4, .wake),
    (4, .issue), (4, .wrote), (5, .hear 2), (5, .wake)]

theorem valset_first_lost :
    ∃ s, Reachable (ValsetSystem.step 2 firstLost valsetAck) {} s ∧
      s.client.outcomes = [.error .timeout, .error .timeout, .ok (valsetAck 2)] ∧
      timeouts s.client.outcomes ≤
        countFate firstLost .late 3 + 2 * countFate firstLost .lost 3 := by
  have hrun : ((run (ValsetSystem.step 2 firstLost valsetAck) {} lostRun).map fun s =>
      s.client.outcomes) = some [.error .timeout, .error .timeout, .ok (valsetAck 2)] := by
    decide +kernel
  obtain ⟨s, hs, hout⟩ := Option.map_eq_some_iff.1 hrun
  have hlaw := valset_stale_credit_law 2 firstLost valsetAck (fun _ => ⟨rfl, rfl⟩)
    (fun _ => Or.inr rfl) s ⟨_, hs⟩
  refine ⟨s, ⟨_, hs⟩, hout, ?_⟩
  have hlen : s.client.outcomes.length = 3 := by rw [hout]; rfl
  exact hlen ▸ hlaw.2.2.2.2.1

end Mtrtk
