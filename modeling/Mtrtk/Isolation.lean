import Mtrtk.Transactions

/-!
# The transaction that is left open

In every run in which no task is cancelled while it awaits its BEGIN, and no COMMIT or ROLLBACK
fails, transactions are by themselves (`isolated_of_spared`) : in an open transaction only what was
submitted in it is run, a body that raised has none of its statements kept, and while the lock is
free what was submitted leaves no transaction open. Where moreover a COMMIT or ROLLBACK is run
before the task that awaits it is cancelled, none is open at any moment while the lock is free.

A cancellation that lands between the BEGIN's submission and its result releases the lock, and
nobody ends the transaction that the BEGIN opens : the statements of every other task are run in it
(`begin_cancelled`).
-/

namespace Mtrtk

namespace Database

variable {s : Database} {t : ℕ}

/-! ## At every moment -/

/-- What the holder of the lock has open while nothing of its own is run. -/
def Calm (s : Database) (t : ℕ) : Prop :=
  match s.pc t with
  | .outer _ _ => s.conn.opener = none
  | .beginning _ id => s.result id ≠ some true → s.conn.opener = none
  | .committing id | .rollingBack id => id + 1 = s.next
  | _ => True

/-- No transaction is open while the lock is free. -/
structure Quiet (s : Database) : Prop where
  order : ∀ x ∈ s.queue, ∀ id, (s.result id).isSome → id < x.id
  free : s.lock = none → s.conn.opener = none
  held : ∀ t, s.lock = some t → s.Calm t

theorem quiet_fresh : Quiet {} where
  order _ hx := absurd hx List.not_mem_nil
  free _ := rfl
  held _ hl := absurd hl.symm (Option.some_ne_none _)

/-- The holder of the lock is as calm as it was, where it did not move. -/
theorem Calm.mono {s' : Database} (hc : s.Calm t) (hpc : s'.pc t = s.pc t)
    (hnext : s'.next = s.next) (hopener : s.conn.opener = none → s'.conn.opener = none ∨
      ∃ call id, s.pc t = .beginning call id ∧ s'.result id = some true)
    (hresult : ∀ call id, s.pc t = .beginning call id → s.result id = some true →
      s'.result id = some true) : s'.Calm t := by
  unfold Calm at hc ⊢
  rw [hpc, hnext]
  split at hc
  · next heq =>
    rcases hopener hc with ho | ⟨call, id, heq', -⟩
    · exact ho
    · rw [heq] at heq'
      exact absurd heq' Pc.noConfusion
  · next call id heq =>
    intro hne
    have hnone := hc fun htrue => hne (hresult call id heq htrue)
    rcases hopener hnone with ho | ⟨call', id', heq', ho⟩
    · exact ho
    · rw [heq] at heq'
      exact absurd ho ((Pc.beginning.inj heq').2 ▸ hne)
  all_goals exact hc

section

variable (q : Quiet s)

include q

theorem Quiet.goto {tx : Option ℕ} {pc : Pc}
    (hcalm : s.lock = some t → ({ s with txTask := tx }.goto t pc).Calm t) :
    Quiet ({ s with txTask := tx }.goto t pc) where
  order := q.order
  free := q.free
  held u hu := by
    rcases eq_or_ne u t with rfl | hne
    · exact hcalm hu
    · exact (q.held u hu).mono (by simp [Database.goto, hne]) rfl .inl fun _ _ _ => id

theorem Quiet.exit (hopener : s.conn.opener = none) : Quiet (s.exit t) where
  order := q.order
  free _ := hopener
  held _ hl := absurd hl.symm (Option.some_ne_none _)

theorem Quiet.release (hopener : s.conn.opener = none) : Quiet (s.release t) where
  order := q.order
  free _ := hopener
  held _ hl := absurd hl.symm (Option.some_ne_none _)

variable (h : Inv s)

include h

/-- The last operation submitted has been run, and nothing is left to run. -/
theorem Quiet.queue_nil {id : ℕ} (hlast : id + 1 = s.next) (hran : (s.result id).isSome) :
    s.queue = [] := by
  refine List.eq_nil_iff_forall_not_mem.2 fun x hx => ?_
  have hlt := q.order x hx id hran
  have hnext := (h.unrun x hx).1
  omega

theorem Quiet.submit {tx : Option ℕ} {raised : List ℕ} {op : Op} {pc : ℕ → Pc}
    (hcalm : ({ s with lock := some t, txTask := tx, raised }.submit t op pc).Calm t) :
    Quiet ({ s with lock := some t, txTask := tx, raised }.submit t op pc) where
  order x hx id hid := by
    rcases List.mem_append.1 hx with hx | hx
    · exact q.order x hx id hid
    · obtain rfl := List.mem_singleton.1 hx
      refine Nat.lt_of_not_le fun hle => ?_
      have hran : (s.result id).isSome := hid
      rw [h.unknown id hle] at hran
      exact absurd hran Bool.false_ne_true
  free hl := absurd hl (Option.some_ne_none _)
  held u hu := Option.some.inj hu ▸ hcalm

theorem Quiet.submit_held (ht : s.lock = some t) {op : Op} {pc : ℕ → Pc}
    (hcalm : (s.submit t op pc).Calm t) : Quiet (s.submit t op pc) := by
  have heq : s = { s with lock := some t, txTask := s.txTask, raised := s.raised } := by rw [← ht]
  rw [heq] at hcalm ⊢
  exact q.submit h hcalm

theorem Quiet.bodyRaised (ht : s.lock = some t) {body : ℕ} : Quiet (s.bodyRaised t body) := by
  have heq : ({ s with raised := body :: s.raised } : Database) =
      { s with lock := some t, txTask := s.txTask, raised := body :: s.raised } := by rw [← ht]
  unfold Database.bodyRaised
  rw [heq]
  exact q.submit h (by simp [Calm, Database.submit])

/-- A transaction whose end has been run is not open. -/
theorem Quiet.opener_none {id : ℕ} (hpc : s.pc t = .committing id ∨ s.pc t = .rollingBack id)
    (hran : (s.result id).isSome) : s.conn.opener = none := by
  have ht : s.lock = some t := by
    rcases hpc with hpc | hpc
    · exact h.holder hpc not_false
    · exact h.holder hpc not_false
  have hheld := h.held t ht
  have hcalm := q.held t ht
  rcases hpc with hpc | hpc
  all_goals
    simp only [Holding, Calm, hpc] at hheld hcalm
    have hset := hheld.2
    rw [Settles, q.queue_nil h hcalm hran] at hset
    exact Option.some.inj hset

theorem Quiet.onCall {s' : Database} {call : Call} (hs : s.onCall t call = some s') :
    Quiet s' := by
  unfold Database.onCall at hs
  split at hs
  · next body hpc =>
    split at hs
    · next howns =>
      have ht : s.lock = some t := h.owner (of_decide_eq_true howns)
      have hinside : ∀ fetch, Quiet (s.submit t (.stmt body) (.inner body · fetch)) := fun fetch =>
        q.submit_held h ht (by simp [Calm, Database.submit])
      obtain rfl := Option.some.inj hs
      cases call with
      | transaction => exact q
      | commit => exact q
      | execute => exact hinside false
      | executemany => exact hinside false
      | fetchall => exact hinside true
      | fetchone => exact hinside true
    · obtain rfl := Option.some.inj hs
      exact q.goto fun _ => by simp [Calm, Database.goto]
  · exact absurd hs.symm (Option.some_ne_none _)

theorem Quiet.onAcquire {s' : Database} (hs : s.onAcquire t = some s') : Quiet s' := by
  unfold Database.onAcquire at hs
  split at hs
  · next call hpc hlock =>
    have hopener := q.free hlock
    obtain rfl := Option.some.inj hs
    have hbegin : ∀ call, Quiet ({ s with lock := some t }.submit t (.begin s.next)
        (.beginning call)) := fun call =>
      q.submit h (by simp [Calm, Database.submit, hopener])
    have houter : ∀ op fetch, Quiet ({ s with lock := some t }.submit t op (.outer · fetch)) :=
      fun op fetch => q.submit h (by simp [Calm, Database.submit, hopener])
    cases call with
    | transaction => exact hbegin _
    | executemany => exact hbegin _
    | execute => exact houter _ false
    | fetchall => exact houter _ true
    | fetchone => exact houter _ true
    | commit => exact houter _ false
  · exact absurd hs.symm (Option.some_ne_none _)

theorem Quiet.ran {x : Submitted} {queue : List Submitted} {ok : Bool} {conn : Connection}
    (hqueue : s.queue = x :: queue)
    (hopener : s.conn.opener = none → conn.opener = none ∨ s.lock = some x.task ∧
      (∃ call, s.pc x.task = .beginning call x.id) ∧ ok = true) :
    Quiet (s.ran x queue ok conn) where
  order y hy id hid := by
    have hnumbered := h.numbered
    rw [hqueue, List.map_cons, List.pairwise_cons] at hnumbered
    rcases eq_or_ne id x.id with rfl | hne
    · exact hnumbered.1 _ (List.mem_map_of_mem hy)
    · refine q.order y (hqueue ▸ List.mem_cons_of_mem x hy) id ?_
      simpa [Database.ran, hne] using hid
  free hl := by
    rcases hopener (q.free hl) with ho | ⟨hlock, -⟩
    · exact ho
    · exact absurd (hlock.symm.trans hl) (Option.some_ne_none _)
  held u hu := by
    refine (q.held u hu).mono rfl rfl (fun ho => ?_) fun _ id _ htrue => ?_
    · rcases hopener ho with ho | ⟨hlock, ⟨call, hpc⟩, rfl⟩
      · exact .inl ho
      · obtain rfl : x.task = u := Option.some.inj (hlock.symm.trans hu)
        exact .inr ⟨call, x.id, hpc, by simp [Database.ran]⟩
    · have hne : id ≠ x.id := by
        rintro rfl
        exact Option.some_ne_none _ (htrue.symm.trans (h.unrun x (hqueue ▸ List.mem_cons_self)).2)
      simpa [Database.ran, hne] using htrue

theorem Quiet.onRun {s' : Database} {ok : Bool} (hrun : s.onRun ok = some s') : Quiet s' := by
  cases hqueue : s.queue with
  | nil => simp [Database.onRun, hqueue] at hrun
  | cons x queue =>
    cases ok with
    | false =>
      obtain rfl : s.ran x queue false s.conn = s' := by
        simpa [Database.onRun, hqueue, Database.ran] using hrun
      exact q.ran h hqueue .inl
    | true =>
      obtain ⟨conn, hconn, rfl⟩ : ∃ conn, s.conn.run x = some conn ∧
          s.ran x queue true conn = s' := by
        simpa [Database.onRun, hqueue, Database.ran] using hrun
      refine q.ran h hqueue fun hopener => ?_
      rcases h.head hqueue with ⟨o, ho⟩ | ⟨-, -, -, hlock, hpc⟩
      · obtain ⟨conn', hconn', rfl⟩ := run_of_pass ho
        obtain rfl := Option.some.inj (hconn.symm.trans hconn')
        rw [hopener] at ho
        exact .inl (pass_none ho)
      · exact .inr ⟨hlock, hpc, rfl⟩

theorem Quiet.onResume {s' : Database} (hs : s.onResume t = some s') : Quiet s' := by
  unfold Database.onResume at hs
  cases hpc : s.pc t with
  | beginning call id =>
    have ht := h.holder hpc not_false
    have hcalm := q.held t ht
    simp only [hpc, Calm] at hs hcalm
    obtain ⟨ok, hok, rfl⟩ := Option.map_eq_some_iff.1 hs
    cases ok with
    | true =>
      simp only [if_true]
      unfold Database.enter
      split
      · have heq : ({ s with txTask := some t } : Database) =
            { s with lock := some t, txTask := some t, raised := s.raised } := by rw [← ht]
        rw [heq]
        exact q.submit h (by simp [Calm, Database.submit])
      · exact q.goto fun _ => by simp [Calm, Database.goto]
    | false => exact q.release (hcalm (by simp [hok]))
  | batch body id =>
    have ht := h.holder hpc not_false
    simp only [hpc] at hs
    obtain ⟨ok, -, rfl⟩ := Option.map_eq_some_iff.1 hs
    split
    · exact q.submit_held h ht (by simp [Calm, Database.submit])
    · exact q.bodyRaised h ht
  | inner body id fetch =>
    have ht := h.holder hpc (by cases body <;> exact not_false)
    simp only [hpc] at hs
    obtain ⟨ok, -, rfl⟩ := Option.map_eq_some_iff.1 hs
    split
    · exact q.submit_held h ht (by simp [Calm, Database.submit])
    · exact q.goto fun _ => by simp [Calm, Database.goto]
  | outer id fetch =>
    have ht := h.holder hpc not_false
    have hcalm := q.held t ht
    simp only [hpc, Calm] at hs hcalm
    obtain ⟨ok, -, rfl⟩ := Option.map_eq_some_iff.1 hs
    split
    · exact q.submit_held h ht (by simp [Calm, Database.submit, hcalm])
    · exact q.release hcalm
  | committing id =>
    simp only [hpc] at hs
    obtain ⟨ok, hok, rfl⟩ := Option.map_eq_some_iff.1 hs
    exact q.exit (q.opener_none h (.inl hpc) (by simp [hok]))
  | rollingBack id =>
    simp only [hpc] at hs
    obtain ⟨ok, hok, rfl⟩ := Option.map_eq_some_iff.1 hs
    exact q.exit (q.opener_none h (.inr hpc) (by simp [hok]))
  | code body => simp [hpc] at hs
  | locking call => simp [hpc] at hs

theorem Quiet.onCancel {s' : Database} (hspared : s.spared (.cancel t) = true)
    (hprompt : s.prompt (.cancel t) = true) (hs : s.onCancel t = some s') : Quiet s' := by
  unfold Database.onCancel at hs
  cases hpc : s.pc t with
  | beginning call id =>
    have hcalm := q.held t (h.holder hpc not_false)
    have hfalse : s.result id = some false := by simpa [spared, hpc] using hspared
    simp only [hpc, Calm, Option.some.injEq] at hs hcalm
    exact hs ▸ q.release (hcalm (by simp [hfalse]))
  | batch body id =>
    simp only [hpc, Option.some.injEq] at hs
    exact hs ▸ q.bodyRaised h (h.holder hpc not_false)
  | inner body id fetch =>
    simp only [hpc, Option.some.injEq] at hs
    exact hs ▸ q.goto fun _ => by simp [Calm, Database.goto]
  | outer id fetch =>
    have hcalm := q.held t (h.holder hpc not_false)
    simp only [hpc, Calm, Option.some.injEq] at hs hcalm
    exact hs ▸ q.release hcalm
  | committing id =>
    have hran : (s.result id).isSome := by simpa [prompt, hpc] using hprompt
    simp only [hpc, Option.some.injEq] at hs
    exact hs ▸ q.exit (q.opener_none h (.inl hpc) hran)
  | rollingBack id =>
    have hran : (s.result id).isSome := by simpa [prompt, hpc] using hprompt
    simp only [hpc, Option.some.injEq] at hs
    exact hs ▸ q.exit (q.opener_none h (.inr hpc) hran)
  | locking call =>
    simp only [hpc, Option.some.injEq] at hs
    exact hs ▸ q.goto fun _ => by simp [Calm, Database.goto]
  | code body => simp [hpc] at hs

theorem Quiet.onEnd {s' : Database} {raised : Bool} (hs : s.onEnd t raised = some s') :
    Quiet s' := by
  unfold Database.onEnd at hs
  split at hs
  · next body hpc =>
    have ht := h.holder hpc not_false
    obtain rfl := Option.some.inj hs
    split
    · exact q.bodyRaised h ht
    · exact q.submit_held h ht (by simp [Calm, Database.submit])
  · exact absurd hs.symm (Option.some_ne_none _)

theorem Quiet.step {s' : Database} {e : Event} (hspared : s.spared e = true)
    (hprompt : s.prompt e = true) (hs : s.step e = some s') : Quiet s' := by
  cases e with
  | call t call => exact q.onCall h hs
  | acquire t => exact q.onAcquire h hs
  | run ok => exact q.onRun h hs
  | resume t => exact q.onResume h hs
  | cancel t => exact q.onCancel h hspared hprompt hs
  | leave t => exact q.onEnd h hs
  | raise t => exact q.onEnd h hs

end

/-! ## Every run -/

/-- The next operation is of the task whose transaction is open. -/
def Isolated (s : Database) : Prop := ∀ x ∈ s.queue.head?, ∀ u ∈ s.conn.opener, u.1 = x.task

/-- A body that raised, or was cancelled, has none of its statements kept. -/
def Dropped (s : Database) : Prop :=
  ∀ body ∈ s.raised, ∀ st ∈ s.conn.committed, st.2 ≠ some body

/-- While the lock is free, what was submitted leaves no transaction open. -/
def Closing (s : Database) : Prop :=
  s.lock = none → ∃ conn, s.queue.foldlM Connection.run s.conn = some conn ∧ conn.opener = none

theorem Inv.isolated (h : Inv s) : s.Isolated := by
  intro x hx u hu
  obtain ⟨queue, hqueue⟩ : ∃ queue, s.queue = x :: queue :=
    ⟨_, List.eq_cons_of_mem_head? hx⟩
  rcases h.head hqueue with ⟨o, ho⟩ | ⟨hopener, -⟩
  · rw [Option.mem_def.1 hu] at ho
    exact task_of_pass ho
  · exact absurd (hu.symm.trans hopener) (Option.some_ne_none _)

/-- Operations in their places are all run. -/
theorem run_of_passes {queue : List Submitted} {o : Option (ℕ × ℕ)} :
    ∀ {c : Connection}, queue.foldlM pass c.opener = some o →
      ∃ c', queue.foldlM Connection.run c = some c' ∧ c'.opener = o := by
  induction queue with
  | nil => exact fun h => ⟨_, rfl, Option.some.inj h⟩
  | cons x queue ih =>
    intro c h
    rw [List.foldlM_cons] at h
    obtain ⟨o', ho', hrest⟩ := Option.bind_eq_some_iff.1 h
    obtain ⟨c', hc', rfl⟩ := run_of_pass ho'
    obtain ⟨c'', hc'', ho⟩ := ih hrest
    exact ⟨c'', by rw [List.foldlM_cons, hc']; exact hc'', ho⟩

theorem Inv.closing (h : Inv s) : s.Closing := fun hl => run_of_passes (h.free hl).2

theorem inv_of_reachable (h : Reachable (guarded step spared) {} s) : Inv s :=
  h.invariant Inv inv_fresh fun _ _ _ _ ht hs =>
    ht.step (guarded_eq_some.1 hs).1 (guarded_eq_some.1 hs).2

theorem quiet_of_reachable
    (h : Reachable (guarded step fun s e => s.spared e && s.prompt e) {} s) :
    Inv s ∧ Quiet s := by
  refine h.invariant (fun s => Inv s ∧ Quiet s) ⟨inv_fresh, quiet_fresh⟩ ?_
  rintro t e t' - ⟨hi, hq⟩ hs
  obtain ⟨hcond, hs⟩ := guarded_eq_some.1 hs
  obtain ⟨hspared, hprompt⟩ := Bool.and_eq_true_iff.1 hcond
  exact ⟨hi.step hspared hs, hq.step hi hspared hprompt hs⟩

/-- **Transactions are by themselves and end**, in every run in which no task is cancelled while
it awaits its BEGIN and no COMMIT or ROLLBACK fails. Where these are run before the task that
awaits them is cancelled, no transaction is open at any moment while the lock is free. -/
theorem isolated_of_spared (s : Database) :
    (Reachable (guarded step spared) {} s → s.Isolated ∧ s.Dropped ∧ s.Closing) ∧
      (Reachable (guarded step fun s e => s.spared e && s.prompt e) {} s →
        s.Isolated ∧ s.Dropped ∧ (s.lock = none → s.conn.opener = none)) := by
  refine ⟨fun h => ?_, fun h => ?_⟩
  · have hi := inv_of_reachable h
    exact ⟨hi.isolated, fun body hb => (hi.raised body hb).2, hi.closing⟩
  · obtain ⟨hi, hq⟩ := quiet_of_reachable h
    exact ⟨hi.isolated, fun body hb => (hi.raised body hb).2, hq.free⟩

/-- Task 0 does a statement in a transaction, and is cancelled in the body : nothing is kept. -/
theorem isolated_of_spared_cancelled : ∃ s : Database, s.raised = [0] ∧ s.lock = none ∧
    s.Isolated ∧ s.Dropped ∧ s.conn.opener = none := by
  have hrun : (run (guarded step fun s e => s.spared e && s.prompt e) {} [.call 0 .transaction,
      .acquire 0, .run true, .resume 0, .call 0 .execute, .cancel 0, .raise 0, .run true, .run true,
      .resume 0]).isSome := by decide
  obtain ⟨s, hs⟩ := Option.isSome_iff_exists.1 hrun
  have hraised : s.raised = [0] ∧ s.lock = none := by
    obtain rfl := Option.some.inj hs
    exact ⟨rfl, rfl⟩
  have hisolated := (isolated_of_spared s).2 ⟨_, hs⟩
  exact ⟨s, hraised.1, hraised.2, hisolated.1, hisolated.2.1, hisolated.2.2 hraised.2⟩

/-- Task 0 is cancelled while it awaits its BEGIN : when the BEGIN has run, the lock is free with
a transaction open that nobody ends, and the next statement in it is task 1's. -/
theorem begin_cancelled :
    (run step {} [.call 0 .transaction, .acquire 0, .cancel 0, .run true]).any (fun s =>
        s.lock = none ∧ s.queue = [] ∧ s.conn.opener = some (0, 0)) ∧
      (run step {} [.call 0 .transaction, .acquire 0, .cancel 0, .run true, .call 1 .execute,
        .acquire 1]).any fun s =>
          s.conn.opener = some (0, 0) ∧ s.queue.map Submitted.task = [1] := by
  decide

end Database

end Mtrtk
