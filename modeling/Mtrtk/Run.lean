import Mathlib.Data.List.Induction
import Mathlib.Tactic.Common

/-!
# Runs of a machine

A machine is a partial step `σ → ι → Option σ` : the state after an event, or `none`
where the event cannot happen. `run` takes the events of a list in order, and a state is
`Reachable` when some run ends in it. `Reachable.invariant` is the induction every safety
property of such a machine goes through, `exists_run_end` says that a machine whose steps go
down comes to an end.

`guarded` is the machine whose events happen only under a condition on the state they
happen in. What is `Reachable` there is what the runs reach all of whose steps meet the
condition.
-/

namespace Mtrtk

variable {σ ι : Type*}

/-- The state after the events, `none` when one of them cannot happen. -/
def run (step : σ → ι → Option σ) : σ → List ι → Option σ
  | s, [] => some s
  | s, i :: is => (step s i).bind fun s' => run step s' is

/-- Some run from `s₀` ends in `s`. -/
def Reachable (step : σ → ι → Option σ) (s₀ s : σ) : Prop := ∃ is, run step s₀ is = some s

variable {step : σ → ι → Option σ}

theorem run_append (step : σ → ι → Option σ) : ∀ (s : σ) (is js : List ι),
    run step s (is ++ js) = (run step s is).bind fun s' => run step s' js
  | _, [], _ => rfl
  | s, i :: is, js => by
    cases h : step s i with
    | none => simp [run, h]
    | some s' => simpa [run, h] using run_append step s' is js

/-- What is left of a run after its first events. -/
theorem run_rest {s s₁ s' : σ} {before after : List ι} {i : ι}
    (h : run step s (before ++ i :: after) = some s') (hbefore : run step s before = some s₁) :
    ∃ t, step s₁ i = some t ∧ run step t after = some s' := by
  rw [run_append, hbefore] at h
  exact Option.bind_eq_some_iff.1 h

theorem Reachable.later {s₀ s s' : σ} {is : List ι} (h : Reachable step s₀ s)
    (hr : run step s is = some s') : Reachable step s₀ s' := by
  obtain ⟨js, hjs⟩ := h
  exact ⟨js ++ is, by simp [run_append, hjs, hr]⟩

/-- What holds at the start and is kept by every step taken from a reachable state holds in
every reachable state. -/
theorem Reachable.invariant {s₀ s : σ} (P : σ → Prop) (h : Reachable step s₀ s) (h₀ : P s₀)
    (hstep : ∀ t i t', Reachable step s₀ t → P t → step t i = some t' → P t') : P s := by
  obtain ⟨is, his⟩ := h
  induction is using List.reverseRecOn generalizing s with
  | nil =>
    obtain rfl : s₀ = s := by simpa [run] using his
    exact h₀
  | append_singleton is i ih =>
    rw [run_append] at his
    obtain ⟨t, ht, hts⟩ := Option.bind_eq_some_iff.1 his
    have hlast : step t i = some s := by simpa [run] using hts
    exact hstep t i s ⟨is, ht⟩ (ih ht) hlast

/-- A machine whose steps go down comes to an end, whatever its events are. -/
theorem exists_run_end {left : σ → ℕ}
    (hleft : ∀ s i s', step s i = some s' → left s' < left s) (s₀ : σ) (events : ℕ → ι) :
    ∃ n s, run step s₀ ((List.range n).map events) = some s ∧ step s (events n) = none := by
  induction hm : left s₀ using Nat.strongRecOn generalizing s₀ events with
  | _ m ih =>
    rcases h : step s₀ (events 0) with _ | s'
    · exact ⟨0, s₀, rfl, h⟩
    · obtain ⟨n, s, hrun, hend⟩ :=
        ih _ (hm ▸ hleft s₀ _ s' h) s' (fun k => events (k + 1)) rfl
      refine ⟨n + 1, s, ?_, hend⟩
      simpa [List.range_succ_eq_map, run, h, Function.comp_def] using hrun

/-- The machine whose events happen only under `cond`. -/
def guarded (step : σ → ι → Option σ) (cond : σ → ι → Bool) (s : σ) (i : ι) : Option σ :=
  if cond s i then step s i else none

theorem guarded_eq_some {cond : σ → ι → Bool} {s s' : σ} {i : ι} :
    guarded step cond s i = some s' ↔ cond s i = true ∧ step s i = some s' := by
  simp [guarded]

end Mtrtk
