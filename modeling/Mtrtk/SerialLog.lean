import Mtrtk.Serial

/-!
# The log of the calls

A call is in the log once its transaction is committed, and not before. `Ledger` says so of the
calls that are under way and of those that are over : one that returned, or did not find what it
read after its transaction, is in the log, and one whose body raised is not. What the database
failed is left open, as a read after the transaction may fail like anything else.

The log only grows, and the table is what it leaves. So what every body keeps of a table holds
between the tables of a run (`run_table`).
-/

namespace Mtrtk

namespace Serial

variable {τ ε ρ κ : Type} {body : κ → Body τ ε ρ} {s s' : State τ ε ρ κ}

/-! ## What a step does to a call -/

/-- What the end of a call tells of its transaction : whether it was committed. -/
def tells : Except (Failure ε) ρ → Option Bool
  | .ok _ | .error .assertion => some true
  | .error (.raised _) => some false
  | .error .database => none

/-- The log after a step of a call, which may commit it. -/
def logAfter (log : List (ℕ × κ)) (c : ℕ × κ) (commits : Bool) : List (ℕ × κ) :=
  if commits then log ++ [c] else log

/-- What one step does to the call of a task : the call begins, goes on or ends. -/
inductive Moves (s s' : State τ ε ρ κ) (t : ℕ) : Prop
  | asks (k : κ) (old : (s.pc t).call = none) (new : (s'.pc t).call = some (s.next, k))
    (committed : (s'.pc t).committed = false) (next : s'.next = s.next + 1)
    (log : s'.log = s.log) (finished : s'.finished = s.finished)
  | goes (c : ℕ × κ) (commits : Bool) (old : (s.pc t).call = some c)
    (new : (s'.pc t).call = some c) (first : commits = true → (s.pc t).committed = false)
    (committed : (s'.pc t).committed = ((s.pc t).committed || commits)) (next : s'.next = s.next)
    (log : s'.log = logAfter s.log c commits) (finished : s'.finished = s.finished)
  | ends (c : ℕ × κ) (commits : Bool) (result : Except (Failure ε) ρ)
    (old : (s.pc t).call = some c) (new : (s'.pc t).call = none)
    (first : commits = true → (s.pc t).committed = false)
    (tells : ∀ b, tells result = some b → b = ((s.pc t).committed || commits))
    (next : s'.next = s.next) (log : s'.log = logAfter s.log c commits)
    (finished : s'.finished = s.finished ++ [(c, result)])

@[simp] theorem settle_call (c : ℕ × κ) (rest : Body τ ε ρ) :
    (Pc.settle c rest : Pc τ ε ρ κ).call = some c := by
  cases rest <;> rfl

@[simp] theorem settle_committed (c : ℕ × κ) (rest : Body τ ε ρ) :
    (Pc.settle c rest : Pc τ ε ρ κ).committed = false := by
  cases rest <;> rfl

/-- A task that goes on with its call. -/
theorem moves_goto {t : ℕ} {c : ℕ × κ} {pc : Pc τ ε ρ κ} (old : (s.pc t).call = some c)
    (new : pc.call = some c) (committed : pc.committed = (s.pc t).committed)
    (hpc : s'.pc = Function.update s.pc t pc) (next : s'.next = s.next) (log : s'.log = s.log)
    (finished : s'.finished = s.finished) :
    ∃ t, (∀ u, u ≠ t → s'.pc u = s.pc u) ∧ Moves s s' t := by
  refine ⟨t, fun u hu => by rw [hpc, Function.update_of_ne hu], ?_⟩
  refine .goes c false old ?_ (by simp) ?_ next log finished
  · rw [hpc, Function.update_self, new]
  · rw [hpc, Function.update_self, committed, Bool.or_false]

/-- A task whose call is over. -/
theorem moves_finish {t : ℕ} {c : ℕ × κ} {result : Except (Failure ε) ρ}
    (old : (s.pc t).call = some c) (htells : ∀ b, tells result = some b → b = (s.pc t).committed)
    (hpc : s'.pc = Function.update s.pc t .idle) (next : s'.next = s.next)
    (log : s'.log = s.log) (finished : s'.finished = s.finished ++ [(c, result)]) :
    ∃ t, (∀ u, u ≠ t → s'.pc u = s.pc u) ∧ Moves s s' t := by
  refine ⟨t, fun u hu => by rw [hpc, Function.update_of_ne hu], ?_⟩
  refine .ends c false result old ?_ (by simp) ?_ next log finished
  · rw [hpc, Function.update_self]
    rfl
  · simpa using htells

theorem tells_found {get : τ → Option ρ} {b : Bool} (h : tells (s.found get) = some b) :
    b = true := by
  unfold State.found at h
  split at h <;> simpa [tells] using h.symm

theorem step_moves {e : Event κ} (hs : s.step body e = some s') :
    ∃ t, (∀ u, u ≠ t → s'.pc u = s.pc u) ∧ Moves s s' t := by
  cases e with
  | call t k =>
    simp only [State.step, State.onCall] at hs
    split at hs
    next hpc =>
      obtain rfl := Option.some.inj hs
      refine ⟨t, fun u hu => by simp [State.goto, hu], ?_⟩
      exact .asks k (by simp [hpc, Pc.call]) (by simp [State.goto, Pc.call])
        (by simp [State.goto, Pc.committed]) rfl rfl rfl
    next => cases hs
  | acquire t =>
    simp only [State.step, State.onAcquire] at hs
    split at hs
    next hpc _ =>
      obtain rfl := Option.some.inj hs
      exact moves_goto (by rw [hpc]; rfl) rfl (by rw [hpc]; rfl) rfl rfl rfl rfl
    next hpc _ =>
      obtain rfl := Option.some.inj hs
      exact moves_goto (by rw [hpc]; rfl) rfl (by rw [hpc]; rfl) rfl rfl rfl rfl
    next => cases hs
  | fail t =>
    simp only [State.step, State.onFail] at hs
    split at hs
    next hpc =>
      obtain rfl := Option.some.inj hs
      exact moves_finish (by rw [hpc]; rfl) (by simp [tells]) rfl rfl rfl rfl
    next hpc =>
      obtain rfl := Option.some.inj hs
      exact moves_finish (by rw [hpc]; rfl) (by simp [tells]) rfl rfl rfl rfl
    next hpc =>
      obtain rfl := Option.some.inj hs
      exact moves_goto (by rw [hpc]; rfl) rfl (by rw [hpc]; rfl) rfl rfl rfl rfl
    next hpc =>
      obtain rfl := Option.some.inj hs
      exact moves_finish (by rw [hpc]; rfl) (by simp [tells]) rfl rfl rfl rfl
    next hpc =>
      obtain rfl := Option.some.inj hs
      exact moves_finish (by rw [hpc]; rfl) (by simp [tells]) rfl rfl rfl rfl
    next => cases hs
  | resume t =>
    simp only [State.step, State.onResume] at hs
    split at hs
    next c hpc =>
      obtain ⟨-, heq⟩ := Option.ite_none_right_eq_some.1 hs
      obtain rfl := Option.some.inj heq
      exact moves_goto (by rw [hpc]; rfl) (settle_call _ _) (by rw [hpc, settle_committed]; rfl)
        rfl rfl rfl rfl
    next c write next hpc =>
      obtain ⟨w, -, rfl⟩ := Option.map_eq_some_iff.1 hs
      cases write w with
      | ok w' =>
        exact moves_goto (by rw [hpc]; rfl) (settle_call _ _) (by rw [hpc, settle_committed]; rfl)
          rfl rfl rfl rfl
      | error e => exact moves_goto (by rw [hpc]; rfl) rfl (by rw [hpc]; rfl) rfl rfl rfl rfl
    next c after hpc =>
      obtain ⟨w, -, rfl⟩ := Option.map_eq_some_iff.1 hs
      cases after with
      | done r =>
        refine ⟨t, fun u hu => by simp [State.commit, State.finish, State.release, hu], ?_⟩
        refine .ends c true (.ok r) (by rw [hpc]; rfl) ?_ (fun _ => by rw [hpc]; rfl)
          (by rw [hpc]; simp [tells]) rfl rfl rfl
        simp [State.commit, State.finish, State.release, Pc.call]
      | read get =>
        refine ⟨t, fun u hu => by simp [State.commit, State.release, hu], ?_⟩
        refine .goes c true (by rw [hpc]; rfl) ?_ (fun _ => by rw [hpc]; rfl) ?_ rfl rfl rfl
        · simp [State.commit, State.release, Pc.call]
        · simp [State.commit, State.release, Pc.committed]
    next c failure hpc =>
      obtain rfl := Option.some.inj hs
      refine moves_finish (by rw [hpc]; rfl) (fun b hb => ?_) rfl rfl rfl rfl
      cases failure with
      | none => cases hb
      | some e =>
        rw [hpc, ← Option.some.inj hb]
        rfl
    next c get hpc =>
      obtain rfl := Option.some.inj hs
      refine moves_finish (by rw [hpc]; rfl) (fun b hb => ?_) rfl rfl rfl rfl
      rw [tells_found hb, hpc]
      rfl
    next => cases hs

/-! ## The log -/

/-- Whether a call is in the log : where it is not, no call with its number is. -/
def Logged (log : List (ℕ × κ)) (c : ℕ × κ) : Bool → Prop
  | true => c ∈ log
  | false => ∀ d ∈ log, d.1 ≠ c.1

theorem Logged.other {log : List (ℕ × κ)} {c d : ℕ × κ} {b : Bool} (h : Logged log d b)
    (commits : Bool) (hne : c.1 ≠ d.1) : Logged (logAfter log c commits) d b := by
  cases commits with
  | false => exact h
  | true =>
    cases b with
    | true => exact List.mem_append_left _ h
    | false =>
      intro e he
      rcases List.mem_append.1 he with he | he
      · exact h e he
      · rwa [List.mem_singleton.1 he]

theorem Logged.self {log : List (ℕ × κ)} {c : ℕ × κ} {b commits : Bool} (h : Logged log c b) :
    Logged (logAfter log c commits) c (b || commits) := by
  cases commits with
  | false => simpa [logAfter] using h
  | true => simp [logAfter, Logged]

/-- What holds of the log, the calls under way and those that are over. -/
structure Ledger (s : State τ ε ρ κ) : Prop where
  old : ∀ c ∈ s.log, c.1 < s.next
  once : (s.log.map Prod.fst).Nodup
  pending : ∀ t c, (s.pc t).call = some c → c.1 < s.next ∧ Logged s.log c (s.pc t).committed
  apart : ∀ t u c d, (s.pc t).call = some c → (s.pc u).call = some d → c.1 = d.1 → t = u
  ended : ∀ x ∈ s.finished, x.1.1 < s.next ∧ ∀ t c, (s.pc t).call = some c → c.1 ≠ x.1.1
  told : ∀ x ∈ s.finished, ∀ b, tells x.2 = some b → Logged s.log x.1 b

variable {t : ℕ} {c : ℕ × κ} {commits : Bool}

/-- A step of a call keeps the numbers of the log apart. -/
theorem Ledger.once_after (h : Ledger s) (hc : (s.pc t).call = some c)
    (first : commits = true → (s.pc t).committed = false) :
    ((logAfter s.log c commits).map Prod.fst).Nodup := by
  cases commits with
  | false => exact h.once
  | true =>
    have hlogged : Logged s.log c false := first rfl ▸ (h.pending t c hc).2
    simp only [logAfter, if_pos, List.map_append, List.map_cons, List.map_nil]
    refine List.Nodup.append h.once (List.nodup_singleton _) ?_
    intro n hn hn'
    obtain ⟨d, hd, rfl⟩ := List.mem_map.1 hn
    exact hlogged d hd (List.mem_singleton.1 hn')

theorem Ledger.old_after (h : Ledger s) (hc : (s.pc t).call = some c) :
    ∀ d ∈ logAfter s.log c commits, d.1 < s.next := by
  intro d hd
  cases commits with
  | false => exact h.old d hd
  | true =>
    rcases List.mem_append.1 hd with hd | hd
    · exact h.old d hd
    · rw [List.mem_singleton.1 hd]
      exact (h.pending t c hc).1

theorem Ledger.ne_of_pending (h : Ledger s) {u : ℕ} {d : ℕ × κ} (hc : (s.pc t).call = some c)
    (hd : (s.pc u).call = some d) (hu : u ≠ t) : c.1 ≠ d.1 :=
  fun hcd => hu (h.apart t u c d hc hd hcd).symm

/-- A new call has a number of its own. -/
theorem Ledger.asks (h : Ledger s) (hother : ∀ u, u ≠ t → s'.pc u = s.pc u) {k : κ}
    (new : (s'.pc t).call = some (s.next, k)) (committed : (s'.pc t).committed = false)
    (next : s'.next = s.next + 1) (log : s'.log = s.log) (finished : s'.finished = s.finished) :
    Ledger s' where
  old d hd := by
    have := h.old d (log ▸ hd)
    omega
  once := log ▸ h.once
  pending u d hd := by
    rw [log, next]
    by_cases hut : u = t
    · subst hut
      obtain rfl := Option.some.inj (new.symm.trans hd)
      rw [committed]
      exact ⟨Nat.lt_succ_self _, fun e he => Nat.ne_of_lt (h.old e he)⟩
    · rw [hother u hut] at hd ⊢
      exact ⟨Nat.lt_succ_of_lt (h.pending u d hd).1, (h.pending u d hd).2⟩
  apart u v d e hd he hde := by
    have hfresh : ∀ u d, (s.pc u).call = some d → d.1 ≠ s.next :=
      fun u d hd => Nat.ne_of_lt (h.pending u d hd).1
    by_cases hut : u = t <;> by_cases hvt : v = t
    · rw [hut, hvt]
    · subst hut
      obtain rfl := Option.some.inj (new.symm.trans hd)
      exact absurd hde.symm (hfresh v e (hother v hvt ▸ he))
    · subst hvt
      obtain rfl := Option.some.inj (new.symm.trans he)
      exact absurd hde (hfresh u d (hother u hut ▸ hd))
    · exact h.apart u v d e (hother u hut ▸ hd) (hother v hvt ▸ he) hde
  ended x hx := by
    rw [finished] at hx
    refine ⟨next ▸ Nat.lt_succ_of_lt (h.ended x hx).1, fun u d hd => ?_⟩
    by_cases hut : u = t
    · subst hut
      obtain rfl := Option.some.inj (new.symm.trans hd)
      exact Nat.ne_of_gt (h.ended x hx).1
    · exact (h.ended x hx).2 u d (hother u hut ▸ hd)
  told x hx := by
    rw [log]
    exact h.told x (finished ▸ hx)

theorem Ledger.goes (h : Ledger s) (hother : ∀ u, u ≠ t → s'.pc u = s.pc u)
    (old : (s.pc t).call = some c) (new : (s'.pc t).call = some c)
    (first : commits = true → (s.pc t).committed = false)
    (committed : (s'.pc t).committed = ((s.pc t).committed || commits)) (next : s'.next = s.next)
    (log : s'.log = logAfter s.log c commits) (finished : s'.finished = s.finished) :
    Ledger s' where
  old := by
    rw [log, next]
    exact h.old_after old
  once := by
    rw [log]
    exact h.once_after old first
  pending u d hd := by
    rw [log, next]
    by_cases hut : u = t
    · subst hut
      obtain rfl := Option.some.inj (new.symm.trans hd)
      rw [committed]
      exact ⟨(h.pending u c old).1, (h.pending u c old).2.self⟩
    · rw [hother u hut] at hd ⊢
      exact ⟨(h.pending u d hd).1, (h.pending u d hd).2.other _ (h.ne_of_pending old hd hut)⟩
  apart u v d e hd he hde := by
    have hcall : ∀ w, (s'.pc w).call = (s.pc w).call := by
      intro w
      by_cases hwt : w = t
      · rw [hwt, old, new]
      · rw [hother w hwt]
    exact h.apart u v d e (hcall u ▸ hd) (hcall v ▸ he) hde
  ended x hx := by
    rw [finished] at hx
    refine ⟨next ▸ (h.ended x hx).1, fun u d hd => ?_⟩
    by_cases hut : u = t
    · subst hut
      exact (h.ended x hx).2 u d (old.trans (new.symm.trans hd))
    · exact (h.ended x hx).2 u d (hother u hut ▸ hd)
  told x hx b hb := by
    rw [finished] at hx
    rw [log]
    exact (h.told x hx b hb).other _ ((h.ended x hx).2 t c old)

theorem Ledger.ends (h : Ledger s) (hother : ∀ u, u ≠ t → s'.pc u = s.pc u)
    {result : Except (Failure ε) ρ} (old : (s.pc t).call = some c) (new : (s'.pc t).call = none)
    (first : commits = true → (s.pc t).committed = false)
    (htells : ∀ b, tells result = some b → b = ((s.pc t).committed || commits))
    (next : s'.next = s.next) (log : s'.log = logAfter s.log c commits)
    (finished : s'.finished = s.finished ++ [(c, result)]) : Ledger s' := by
  have hcall : ∀ u d, (s'.pc u).call = some d → u ≠ t ∧ (s.pc u).call = some d := by
    intro u d hd
    have hut : u ≠ t := by
      rintro rfl
      cases new.symm.trans hd
    exact ⟨hut, hother u hut ▸ hd⟩
  refine ⟨?_, ?_, fun u d hd => ?_, fun u v d e hd he => ?_, fun x hx => ?_, fun x hx b hb => ?_⟩
  · rw [log, next]
    exact h.old_after old
  · rw [log]
    exact h.once_after old first
  · obtain ⟨hut, hd⟩ := hcall u d hd
    rw [log, next, hother u hut]
    exact ⟨(h.pending u d hd).1, (h.pending u d hd).2.other _ (h.ne_of_pending old hd hut)⟩
  · exact h.apart u v d e (hcall u d hd).2 (hcall v e he).2
  · rw [next]
    rw [finished] at hx
    rcases List.mem_append.1 hx with hx | hx
    · exact ⟨(h.ended x hx).1, fun u d hd => (h.ended x hx).2 u d (hcall u d hd).2⟩
    · obtain rfl := List.mem_singleton.1 hx
      refine ⟨(h.pending t c old).1, fun u d hd => ?_⟩
      obtain ⟨hut, hd⟩ := hcall u d hd
      exact (h.ne_of_pending old hd hut).symm
  · rw [log]
    rw [finished] at hx
    rcases List.mem_append.1 hx with hx | hx
    · exact (h.told x hx b hb).other _ ((h.ended x hx).2 t c old)
    · obtain rfl := List.mem_singleton.1 hx
      obtain rfl := htells b hb
      exact (h.pending t c old).2.self

theorem Ledger.step (h : Ledger s) {e : Event κ} (hs : s.step body e = some s') : Ledger s' := by
  obtain ⟨t, hother, hmoves⟩ := step_moves hs
  cases hmoves with
  | asks k old new committed next log finished =>
    exact h.asks hother new committed next log finished
  | goes c commits old new first committed next log finished =>
    exact h.goes hother old new first committed next log finished
  | ends c commits result old new first htells next log finished =>
    exact h.ends hother old new first htells next log finished

theorem ledger_of_reachable {table₀ : τ}
    (h : Reachable (State.step body) { table := table₀ } s) : Ledger s := by
  refine h.invariant Ledger ?_ fun s e s' _ hs he => hs.step he
  exact ⟨by simp, by simp, by simp [Pc.call], by simp [Pc.call], by simp, by simp⟩

/-! ## The tables of a run -/

theorem step_log {e : Event κ} (hs : s.step body e = some s') : s.log <+: s'.log := by
  obtain ⟨t, -, hmoves⟩ := step_moves hs
  cases hmoves with
  | asks k old new committed next log finished => exact log ▸ List.prefix_refl _
  | goes c commits old new first committed next log finished =>
    rw [log]
    cases commits <;> simp [logAfter]
  | ends c commits result old new first htells next log finished =>
    rw [log]
    cases commits <;> simp [logAfter]

theorem run_log {es : List (Event κ)} (hr : run (State.step body) s es = some s') :
    s.log <+: s'.log :=
  Reachable.invariant (fun s' => s.log <+: s'.log) ⟨es, hr⟩ (List.prefix_refl _)
    fun _ _ _ _ hlog he => hlog.trans (step_log he)

/-- What every body keeps of a table is kept from each table of a run to the later ones. -/
theorem run_table {P Q : τ → Prop} {table₀ : τ}
    (hbody : ∀ k table, P table → (body k).Along P table) (h₀ : P table₀)
    (hQ : ∀ k table after table', P table → Q table → (body k).run table = .ok (after, table') →
      Q table')
    (h : Reachable (State.step body) { table := table₀ } s) {es : List (Event κ)}
    (hr : run (State.step body) s es = some s') (hs : Q s.table) : Q s'.table := by
  have hiso := isolated_of_reachable hbody h₀ h
  have hiso' := isolated_of_reachable hbody h₀ (h.later hr)
  obtain ⟨rest, hrest⟩ := run_log hr
  have hrun : runLog body s.table rest = some s'.table := by
    rw [← hiso'.serial, ← hrest, runLog_append hiso.serial]
  refine (runLog_induction (fun _ table => P table ∧ Q table) ⟨hiso.good, hs⟩ ?_ hrun).2
  rintro _ table c after table' ⟨hgood, hq⟩ hc
  exact ⟨(hbody c.2 table hgood).run hc, hQ c.2 table after table' hgood hq hc⟩

end Serial

end Mtrtk
