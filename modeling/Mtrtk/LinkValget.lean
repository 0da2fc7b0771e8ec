import Mtrtk.Link
import Mtrtk.Run

/-!
# VALGETs one after the other

A task reads configuration keys back with `valget`, each call as soon as the one before
it returned. The receiver answers every poll with its data frame and then its ACK-ACK, in
order, nothing is lost, and each data frame is dispatched before its call's deadline.
`ValgetSystem` runs that under every interleaving of the writes, the dispatcher and the
task : frame `2 i` answers call `i`, frame `2 i + 1` is its ACK.

A call is over with its data frame, so its ACK can be dispatched when the next call has
registered. It then resolves the next call's ACK waiter. `valget_reads_own_iff` : every
call returns its own values if and only if none is woken before its own data frame is
dispatched.
-/

namespace Mtrtk

/-- The ACK-ACK of call `i`. -/
def valgetAck (i : ℕ) : LinkFrame := ⟨.ackAck, [0x06, 0x8B], [], i⟩

/-- The receiver's frames in order : the data frame of each call, then its ACK-ACK. -/
def valgetFrame (data : ℕ → LinkFrame) (k : ℕ) : LinkFrame :=
  if k % 2 = 0 then data (k / 2) else valgetAck (k / 2)

/-- The task and the link, with what the receiver's side has done : `heard` frames are
dispatched, `due` are the deadlines of the polls written, `wakes` the number of frames
dispatched when each call was woken. -/
structure ValgetSystem where
  client : Client
  heard : ℕ := 0
  due : List ℚ := []
  wakes : List ℕ := []

inductive ValgetEvent
  | wrote | hear | wake
  deriving DecidableEq, Repr

namespace ValgetSystem

variable (data : ℕ → LinkFrame) (timeout : ℕ → ℚ)

/-- The first call is made on a fresh link. -/
def init : ValgetSystem := { client := Client.issue {} valgetKeys (timeout 0) }

/-- Time goes on, and no data frame is still outstanding at its call's deadline. -/
def OnTime (s : ValgetSystem) (t : ℚ) : Prop :=
  s.client.now ≤ t ∧ ∀ i < s.due.length, s.heard ≤ 2 * i → t < s.due.getD i 0

instance (s : ValgetSystem) (t : ℚ) : Decidable (s.OnTime t) :=
  inferInstanceAs (Decidable (_ ∧ _))

/-- A write is done; the next frame, if its poll is written, is dispatched; or the task
goes on, and makes its next call at once. -/
def step (s : ValgetSystem) (x : ℚ × ValgetEvent) : Option ValgetSystem :=
  if s.OnTime x.1 then
    match x.2 with
    | .wrote =>
      (s.client.wrote x.1).map fun c =>
        { s with client := c, due := s.due ++ [x.1 + timeout s.client.outcomes.length] }
    | .hear =>
      if s.heard / 2 < s.due.length then
        some { s with client := s.client.hear x.1 (valgetFrame data s.heard), heard := s.heard + 1 }
      else none
    | .wake =>
      (s.client.wake x.1).map fun c =>
        { s with client := c.issue valgetKeys (timeout c.outcomes.length),
                 wakes := s.wakes ++ [s.heard] }
  else none

/-- The calls so far returned the values of the data frames sent for them. -/
def ReadsOwn (s : ValgetSystem) : Prop :=
  ∀ i r, s.client.outcomes[i]? = some r → valgetResult r = .ok (cfgValues (data i))

/-- No call so far was woken before its own data frame was dispatched. -/
def WokenByData (s : ValgetSystem) : Prop := ∀ i k, s.wakes[i]? = some k → 2 * i < k

end ValgetSystem

/-! ## The link under one VALGET -/

theorem dataKey_ne_valgetAckKey : dataKey ≠ valgetAckKey := nofun

theorem register_valget {l : Link} (hd : l.waiters dataKey = [])
    (ha : l.waiters valgetAckKey = []) :
    (l.register valgetKeys).1 = [l.fresh, l.fresh + 1] ∧
      (l.register valgetKeys).2.stale = l.stale ∧
      (l.register valgetKeys).2.Awaits dataKey l.fresh ∧
      (l.register valgetKeys).2.Awaits valgetAckKey (l.fresh + 1) := by
  have hne := dataKey_ne_valgetAckKey
  refine ⟨rfl, rfl, ⟨?_, ?_⟩, ⟨?_, ?_⟩⟩
  · simp [valgetKeys, Link.register, hd, hne]
  · simp [valgetKeys, Link.register]
  · simp [valgetKeys, Link.register, ha, hne.symm]
  · simp [valgetKeys, Link.register]

/-- A VALGET that has its data frame is retired without a trace. -/
theorem retire_valget {l : Link} {d a : ℕ} {f : LinkFrame} (hd : l.Got dataKey d f)
    (ha : l.Awaits valgetAckKey a ∨ ∃ g, l.Got valgetAckKey a g) (now timeout : ℚ) :
    (l.retire now timeout valgetKeys [d, a]).stale = l.stale ∧
      (l.retire now timeout valgetKeys [d, a]).waiters dataKey = [] ∧
      (l.retire now timeout valgetKeys [d, a]).waiters valgetAckKey = [] := by
  have hne := dataKey_ne_valgetAckKey
  have hany : (l.futures [d, a]).any Future.answered = true := by
    simp [Link.futures, hd.future, Future.answered]
  have hdone : (l.cell d).future.done = true := by rw [hd.future]; rfl
  simp only [Link.retire, hany, valgetKeys, List.zip_cons_cons, List.zip_nil_right,
    Link.retireEach, hdone, if_true]
  rcases ha with ha | ⟨g, ha⟩
  · simp [ha.future, Future.done, ha.queue, hd.queue, hne]
  · simp [ha.future, Future.done, ha.queue, hd.queue]

/-! ## The invariant -/

/-- Call `n` is under way with the waiters `d` and `a`. -/
structure ValgetInv (data : ℕ → LinkFrame) (timeout : ℕ → ℚ) (s : ValgetSystem) (n d a : ℕ)
    (deadline : Option ℚ) : Prop where
  call : s.client.call = some ⟨valgetKeys, [d, a], timeout n, deadline⟩
  distinct : d ≠ a
  stale : ∀ key, s.client.link.stale key = []
  outcomes : s.client.outcomes = (List.range n).map fun i => .ok (data i)
  wakes : s.wakes.length = n
  due : ∀ x, deadline = some x → s.due[n]? = some x
  written : s.due.length = n + deadline.toList.length
  heard_le : s.heard ≤ 2 * s.due.length
  le_heard : 2 * n ≤ s.heard + 1
  data : (s.heard ≤ 2 * n ∧ s.client.link.Awaits dataKey d) ∨
    (2 * n < s.heard ∧ s.client.link.Got dataKey d (data n))
  ack : s.client.link.Awaits valgetAckKey a ∨ ∃ i, s.client.link.Got valgetAckKey a (valgetAck i)

variable {data : ℕ → LinkFrame} {timeout : ℕ → ℚ}

theorem valgetInv_init : ∃ d a dl, ValgetInv data timeout (ValgetSystem.init timeout) 0 d a dl := by
  obtain ⟨hw, hst, hd, ha⟩ := register_valget (l := ({} : Link)) rfl rfl
  exact ⟨0, 1, none, rfl, by decide, fun key => congrFun hst key, rfl, rfl, nofun, rfl,
    Nat.zero_le _, Nat.zero_le _, Or.inl ⟨le_rfl, hd⟩, Or.inl ha⟩

theorem ValgetInv.hear {s : ValgetSystem} {n d a : ℕ} {dl : Option ℚ} {t : ℚ}
    (h : ValgetInv data timeout s n d a dl) (hid : ∀ i, (data i).identity = .cfgValget)
    (hw : s.heard / 2 < s.due.length) :
    ValgetInv data timeout
      { s with client := s.client.hear t (valgetFrame data s.heard), heard := s.heard + 1 }
      n d a dl := by
  have hne := dataKey_ne_valgetAckKey
  have hdl : dl.toList.length ≤ 1 := by cases dl <;> simp
  have hwr := h.written
  have hle := h.le_heard
  rcases Nat.mod_two_eq_zero_or_one s.heard with hpar | hpar
  · -- the data frame of this call
    have hm : s.heard / 2 = n := by omega
    have hf : valgetFrame data s.heard = data n := by rw [valgetFrame, if_pos hpar, hm]
    have hk : keysFor (data n) = [dataKey] := by rw [keysFor, hid n]; rfl
    have hs := h.stale dataKey
    have hd : s.client.link.Awaits dataKey d := by
      rcases h.data with ⟨-, hd⟩ | ⟨hlt, -⟩
      · exact hd
      · omega
    have hother : ∀ v ∈ s.client.link.waiters dataKey, v ≠ a := fun v hv => by
      rw [hd.queue, List.mem_singleton] at hv
      exact hv ▸ h.distinct
    rw [hf]
    refine ⟨h.call, h.distinct, fun key => ?_, h.outcomes, h.wakes, h.due, h.written,
      ?_, ?_, ?_, ?_⟩
    · exact (congrFun (Link.deliver_stale_unowed hk hs).1 key).trans (h.stale key)
    · dsimp only; omega
    · dsimp only; omega
    · exact Or.inr ⟨by dsimp only; omega, hd.deliver hk hs⟩
    · exact h.ack.imp (·.deliver_other hk hs hne.symm hother) fun ⟨i, ha⟩ =>
        ⟨i, ha.deliver_other hk hs hne.symm hother⟩
  · -- the ACK of this call or of the one before
    have hf : valgetFrame data s.heard = valgetAck (s.heard / 2) := by
      rw [valgetFrame, if_neg (by omega)]
    have hk : keysFor (valgetAck (s.heard / 2)) = [valgetAckKey] := rfl
    have hs := h.stale valgetAckKey
    rw [hf]
    refine ⟨h.call, h.distinct, fun key => ?_, h.outcomes, h.wakes, h.due, h.written,
      ?_, ?_, ?_, ?_⟩
    · exact (congrFun (Link.deliver_stale_unowed hk hs).1 key).trans (h.stale key)
    · dsimp only; omega
    · dsimp only; omega
    · have hother : ∀ v ∈ s.client.link.waiters valgetAckKey, v ≠ d := by
        rcases h.ack with ha | ⟨i, ha⟩
        · intro v hv
          rw [ha.queue, List.mem_singleton] at hv
          exact hv ▸ h.distinct.symm
        · simp [ha.queue]
      exact h.data.imp (fun ⟨hle, hd⟩ => ⟨by dsimp only; omega, hd.deliver_other hk hs hne hother⟩)
        fun ⟨hlt, hd⟩ => ⟨by dsimp only; omega, hd.deliver_other hk hs hne hother⟩
    · rcases h.ack with ha | ⟨i, ha⟩
      · exact Or.inr ⟨s.heard / 2, ha.deliver hk hs⟩
      · exact Or.inr ⟨i, by rw [Client.hear, Link.deliver_idle hk hs ha.queue]; exact ha⟩

theorem ValgetInv.wrote {s : ValgetSystem} {n d a : ℕ} {dl : Option ℚ} {t : ℚ} {c : Client}
    (h : ValgetInv data timeout s n d a dl) (hc : s.client.wrote t = some c) :
    ValgetInv data timeout
      { s with client := c, due := s.due ++ [t + timeout s.client.outcomes.length] }
      n d a (some (t + timeout n)) := by
  rw [Client.wrote, h.call] at hc
  cases dl with
  | some x => simp at hc
  | none =>
    obtain rfl := Option.some.inj hc
    have hn : s.client.outcomes.length = n := by rw [h.outcomes]; simp
    have hlen : s.due.length = n := h.written
    refine ⟨rfl, h.distinct, h.stale, h.outcomes, h.wakes, ?_, ?_, ?_, h.le_heard,
      h.data, h.ack⟩
    · rintro x hx
      simp [hn, ← hlen, ← Option.some.inj hx]
    · simp [hlen]
    · have := h.heard_le
      simp only [List.length_append, List.length_singleton]
      omega

/-- Woken with its data frame there, a call returns it and the next one begins. -/
theorem ValgetInv.wake {s : ValgetSystem} {n d a : ℕ} {dl : Option ℚ} {t : ℚ} {c : Client}
    (h : ValgetInv data timeout s n d a dl) (hc : s.client.wake t = some c)
    (hlt : 2 * n < s.heard) :
    ∃ d' a', ValgetInv data timeout
      { s with client := c.issue valgetKeys (timeout c.outcomes.length),
               wakes := s.wakes ++ [s.heard] } (n + 1) d' a' none := by
  have hd : s.client.link.Got dataKey d (data n) := by
    rcases h.data with ⟨hle, -⟩ | ⟨-, hd⟩
    · omega
    · exact hd
  rw [Client.wake, h.call] at hc
  cases dl with
  | none => simp at hc
  | some x =>
    simp only [Option.ite_none_right_eq_some, Option.some.injEq] at hc
    obtain ⟨-, rfl⟩ := hc
    have hres : requestResult (s.client.link.futures [d, a]) = .ok (data n) := by
      simp only [Link.futures, List.map_cons, hd.future]
      rfl
    obtain ⟨hst, hqd, hqa⟩ := retire_valget hd
      (h.ack.imp_right fun ⟨i, ha⟩ => ⟨_, ha⟩) t (timeout n)
    have hlen : (s.client.outcomes ++ [requestResult (s.client.link.futures [d, a])]).length =
        n + 1 := by simp [h.outcomes]
    obtain ⟨hw, hst', hd', ha'⟩ := register_valget hqd hqa
    refine ⟨_, _, ?_, Nat.ne_of_lt (Nat.lt_succ_self _), fun key => ?_, ?_, ?_, nofun, h.written,
      h.heard_le, ?_, Or.inl ⟨?_, hd'⟩, Or.inl ha'⟩
    · simp only [Client.issue, hw, hlen]
    · simp only [Client.issue, hst', hst, h.stale key]
    · simp only [Client.issue, hres, h.outcomes, List.range_succ, List.map_append, List.map_cons,
        List.map_nil]
    · simp [h.wakes]
    · dsimp only; omega
    · have := h.heard_le
      have := h.written
      simp only [Option.toList_some, List.length_singleton] at this
      dsimp only
      omega

/-- Woken without its data frame, a call raises `LinkNoData`. -/
theorem ValgetInv.wake_early {s : ValgetSystem} {n d a : ℕ} {dl : Option ℚ} {t : ℚ} {c : Client}
    (h : ValgetInv data timeout s n d a dl) (hc : s.client.wake t = some c)
    (hlt : ¬2 * n < s.heard) (ht : s.OnTime t) :
    ∃ f, c.outcomes = s.client.outcomes ++ [.ok f] ∧ f.identity = .ackAck := by
  have hd : s.client.link.Awaits dataKey d := by
    rcases h.data with ⟨-, hd⟩ | ⟨hlt', -⟩
    · exact hd
    · omega
  rw [Client.wake, h.call] at hc
  cases dl with
  | none => simp at hc
  | some x =>
    simp only [Option.ite_none_right_eq_some, Option.some.injEq] at hc
    obtain ⟨hdone, rfl⟩ := hc
    have hlate : ¬x ≤ t := by
      have hn := (List.getElem?_eq_some_iff.1 (h.due x rfl)).1
      have hx := ht.2 n hn (by omega)
      rw [List.getD_eq_getElem?_getD, h.due x rfl] at hx
      exact not_le.2 hx
    rcases h.ack with ha | ⟨i, ha⟩
    · simp [Link.futures, hd.future, ha.future, Future.done, hlate] at hdone
    · refine ⟨valgetAck i, ?_, rfl⟩
      simp [requestResult, Link.futures, hd.future, ha.future, Future.done]

/-! ## Every run -/

/-- What a step can be. -/
theorem ValgetSystem.step_cases {s s' : ValgetSystem} {t : ℚ} {e : ValgetEvent}
    (h : ValgetSystem.step data timeout s (t, e) = some s') :
    s.OnTime t ∧
      ((∃ c, s.client.wrote t = some c ∧
          s' = { s with client := c, due := s.due ++ [t + timeout s.client.outcomes.length] }) ∨
        (s.heard / 2 < s.due.length ∧
          s' = { s with client := s.client.hear t (valgetFrame data s.heard),
                        heard := s.heard + 1 }) ∨
        ∃ c, s.client.wake t = some c ∧
          s' = { s with client := c.issue valgetKeys (timeout c.outcomes.length),
                        wakes := s.wakes ++ [s.heard] }) := by
  obtain ⟨ht, h⟩ := Option.ite_none_right_eq_some.1 (show _ = some s' from h)
  refine ⟨ht, ?_⟩
  rcases e with _ | _ | _
  · obtain ⟨c, hc, rfl⟩ := Option.map_eq_some_iff.1 h
    exact Or.inl ⟨c, hc, rfl⟩
  · obtain ⟨hheard, h⟩ := Option.ite_none_right_eq_some.1 (show _ = some s' from h)
    exact Or.inr (Or.inl ⟨hheard, (Option.some.inj h).symm⟩)
  · obtain ⟨c, hc, rfl⟩ := Option.map_eq_some_iff.1 h
    exact Or.inr (Or.inr ⟨c, hc, rfl⟩)

/-- A step adds to what the calls returned and to when they were woken, it takes nothing
back. -/
theorem ValgetSystem.step_prefix {s s' : ValgetSystem} {t : ℚ} {e : ValgetEvent}
    (h : ValgetSystem.step data timeout s (t, e) = some s') :
    s.client.outcomes <+: s'.client.outcomes ∧ s.wakes <+: s'.wakes := by
  obtain ⟨-, ⟨c, hc, rfl⟩ | ⟨-, rfl⟩ | ⟨c, hc, rfl⟩⟩ := step_cases h
  · rw [Client.wrote] at hc
    split at hc
    · obtain rfl := Option.some.inj hc
      exact ⟨List.prefix_rfl, List.prefix_rfl⟩
    · simp at hc
  · exact ⟨List.prefix_rfl, List.prefix_rfl⟩
  · rw [Client.wake] at hc
    split at hc
    · simp only [Option.ite_none_right_eq_some, Option.some.injEq] at hc
      obtain ⟨-, rfl⟩ := hc
      exact ⟨List.prefix_append _ _, List.prefix_append _ _⟩
    · simp at hc

/-- In every state the calls have returned their own values as long as none was woken
early, and after one that was they have not. -/
theorem valget_invariant (hid : ∀ i, (data i).identity = .cfgValget) {s : ValgetSystem}
    (hs : Reachable (ValgetSystem.step data timeout) (ValgetSystem.init timeout) s) :
    (s.WokenByData ∧ ∃ n d a dl, ValgetInv data timeout s n d a dl) ∨
      (¬s.WokenByData ∧ ¬s.ReadsOwn data) := by
  refine hs.invariant (fun s => (s.WokenByData ∧ ∃ n d a dl, ValgetInv data timeout s n d a dl) ∨
    (¬s.WokenByData ∧ ¬s.ReadsOwn data)) (Or.inl ⟨fun i k hk => by simp [ValgetSystem.init] at hk,
      0, valgetInv_init⟩) ?_
  rintro s ⟨t, e⟩ s' - (⟨hwoken, n, d, a, dl, h⟩ | ⟨hwoken, hreads⟩) hstep
  · obtain ⟨ht, ⟨c, hc, rfl⟩ | ⟨hheard, rfl⟩ | ⟨c, hc, rfl⟩⟩ := ValgetSystem.step_cases hstep
    · exact Or.inl ⟨hwoken, n, d, a, _, h.wrote hc⟩
    · exact Or.inl ⟨hwoken, n, d, a, dl, h.hear hid hheard⟩
    · have hlast : (s.wakes ++ [s.heard])[n]? = some s.heard := by
        rw [← h.wakes, List.getElem?_concat_length]
      rcases Nat.lt_or_ge (2 * n) s.heard with hlt | hge
      · obtain ⟨d', a', h'⟩ := h.wake hc hlt
        refine Or.inl ⟨fun i k hk => ?_, n + 1, d', a', none, h'⟩
        rcases Nat.lt_or_ge i n with hi | hi
        · rw [List.getElem?_append_left (h.wakes ▸ hi)] at hk
          exact hwoken i k hk
        · have hi' := (List.getElem?_eq_some_iff.1 hk).1
          rw [List.length_append, List.length_singleton, h.wakes] at hi'
          obtain rfl : i = n := by omega
          obtain rfl := Option.some.inj (hlast.symm.trans hk)
          exact hlt
      · obtain ⟨f, hout, hf⟩ := h.wake_early hc (by omega) ht
        refine Or.inr ⟨fun hw => absurd (hw n _ hlast) (by omega), fun hr => ?_⟩
        have hn : s.client.outcomes.length = n := by simp [h.outcomes]
        have hget : c.outcomes[n]? = some (.ok f) := by
          rw [hout, ← hn, List.getElem?_concat_length]
        have := hr n _ hget
        simp [valgetResult, hf] at this
  · obtain ⟨hout, hwakes⟩ := ValgetSystem.step_prefix hstep
    refine Or.inr ⟨fun hw => hwoken fun i k hk => hw i k ?_,
      fun hr => hreads fun i r hi => hr i r ?_⟩
    · obtain ⟨hlt, rfl⟩ := List.getElem?_eq_some_iff.1 hk
      exact List.prefix_iff_getElem?.1 hwakes i hlt
    · obtain ⟨hlt, rfl⟩ := List.getElem?_eq_some_iff.1 hi
      exact List.prefix_iff_getElem?.1 hout i hlt

/-- VALGETs one after the other : in every reachable state every call has returned the
values of its own data frame if and only if no call was woken before that frame was
dispatched. -/
theorem valget_reads_own_iff (data : ℕ → LinkFrame) (timeout : ℕ → ℚ)
    (hid : ∀ i, (data i).identity = .cfgValget) (s : ValgetSystem)
    (hs : Reachable (ValgetSystem.step data timeout) (ValgetSystem.init timeout) s) :
    s.ReadsOwn data ↔ s.WokenByData := by
  rcases valget_invariant hid hs with ⟨hw, n, d, a, dl, h⟩ | ⟨hw, hr⟩
  · refine ⟨fun _ => hw, fun _ i r hi => ?_⟩
    rw [h.outcomes, List.getElem?_map] at hi
    obtain ⟨j, hj, rfl⟩ := Option.map_eq_some_iff.1 hi
    obtain ⟨hlt, rfl⟩ := List.getElem?_eq_some_iff.1 hj
    simp [valgetResult, hid]
  · exact ⟨fun h => (hr h).elim, fun h => (hw h).elim⟩

/-- Data frames with one value each, and half a second for each call. -/
def oneValue (i : ℕ) : LinkFrame := ⟨.cfgValget, [], [("CFG_RATE_MEAS", .number i)], i⟩

/-- Two calls whose ACKs come between their data frames and the task's next step. -/
def promptRun : List (ℚ × ValgetEvent) :=
  [(0, .wrote), (0, .hear), (0, .hear), (0, .wake), (0, .wrote), (0, .hear), (0, .wake)]

/-- Two calls, the ACK of the first dispatched when the second has registered. -/
def trailingRun : List (ℚ × ValgetEvent) :=
  [(0, .wrote), (0, .hear), (0, .wake), (0, .wrote), (0, .hear), (0, .wake)]

theorem valget_prompt_reads_own :
    ∃ s, Reachable (ValgetSystem.step oneValue fun _ => 1/2) (ValgetSystem.init fun _ => 1/2) s ∧
      s.wakes = [2, 3] ∧ s.ReadsOwn oneValue := by
  have hrun : ((run (ValgetSystem.step oneValue fun _ => 1/2) (ValgetSystem.init fun _ => 1/2)
      promptRun).map fun s => s.wakes) = some [2, 3] := by decide +kernel
  obtain ⟨s, hs, hwakes⟩ := Option.map_eq_some_iff.1 hrun
  refine ⟨s, ⟨_, hs⟩, hwakes,
    (valget_reads_own_iff oneValue _ (fun _ => rfl) s ⟨_, hs⟩).2 fun i k hk => ?_⟩
  rw [hwakes] at hk
  rcases i with _ | _ | i <;> simp at hk <;> omega

/-- The second call raises `LinkNoData` before its data frame is there. -/
theorem valget_trailing_ack :
    ∃ s, Reachable (ValgetSystem.step oneValue fun _ => 1/2) (ValgetSystem.init fun _ => 1/2) s ∧
      s.client.outcomes.map valgetResult =
        [.ok [("CFG_RATE_MEAS", .int 0)], .error .noData] ∧ ¬s.ReadsOwn oneValue := by
  have hrun : ((run (ValgetSystem.step oneValue fun _ => 1/2) (ValgetSystem.init fun _ => 1/2)
      trailingRun).map fun s => s.client.outcomes.map valgetResult) =
        some [.ok [("CFG_RATE_MEAS", .int 0)], .error .noData] := by decide +kernel
  obtain ⟨s, hs, hout⟩ := Option.map_eq_some_iff.1 hrun
  refine ⟨s, ⟨_, hs⟩, hout, fun hr => ?_⟩
  have hget := congrArg (·[1]?) hout
  simp only [List.getElem?_map] at hget
  obtain ⟨r, hr₁, hr₂⟩ := Option.map_eq_some_iff.1 hget
  simp [hr 1 r hr₁] at hr₂

end Mtrtk
