import Mathlib.Data.List.Basic
import Mathlib.Tactic.Common

/-!
# A device that is asked over a line

A device handles a request and answers it (`Device.handle`). Its asker sends a request again when no
answer comes, so a request may be handled more than once, and the answer to an earlier one may come
late. `Serves` is what the asker wants : every request is handled at once and just once, where the
answer comes back, and once or not at all where it does not.

A device is `Steady` in a request if handling that again changes nothing and is answered the same.
Requests on their way to the device are `Outgoing` : those of earlier calls, which are idle by now,
and then those of the last one. `Due` is what an asker needs of the answers on their way back, those
to the outgoing requests included : what it would not take comes first, and all that follows is the
device's answer. It is kept as the request is sent again (`Due.send`) and as requests and answers
are lost (`Due.sublist`), and what the asker takes is the answer (`Due.take`).
-/

namespace Mtrtk

/-- A device : what handling a request makes of its state, and its answer. -/
structure Device (υ ρ φ : Type*) where
  handle : υ → ρ → υ × φ

namespace Device

variable {υ ρ φ : Type*} (d : Device υ ρ φ)

/-- Handling the request a second time changes nothing and is answered the same. -/
def SteadyAt (u : υ) (r : ρ) : Prop := d.handle (d.handle u r).1 r = d.handle u r

/-- It is so in every state. -/
def Steady (r : ρ) : Prop := ∀ u, d.SteadyAt u r

/-- The calls, in order, each with its answer if that came back : the state they leave. A call whose
answer did not come back was handled once or not at all. -/
inductive Serves (u₀ : υ) : List (ρ × Option φ) → υ → Prop
  | nil : Serves u₀ [] u₀
  | answered {calls u} (r : ρ) (h : Serves u₀ calls u) :
      Serves u₀ (calls ++ [(r, some (d.handle u r).2)]) (d.handle u r).1
  | handled {calls u} (r : ρ) (h : Serves u₀ calls u) :
      Serves u₀ (calls ++ [(r, none)]) (d.handle u r).1
  | unheard {calls u} (r : ρ) (h : Serves u₀ calls u) : Serves u₀ (calls ++ [(r, none)]) u

/-! ## The requests under way -/

/-- Handling `p` changes nothing, and its answer is not accepted. -/
structure Idle (accepts : φ → Bool) (u : υ) (p : ρ) : Prop where
  fst : (d.handle u p).1 = u
  refused : accepts (d.handle u p).2 = false

/-- The requests under way to a device that `r` found in the state `u`, of which `r` was sent `sent`
times : until it is handled there may be others before it. -/
inductive Outgoing (accepts : φ → Bool) (u : υ) (r : ρ) (sent : ℕ) : υ → List ρ → Prop
  | before (old : List ρ) (k : ℕ) (hold : ∀ p ∈ old, d.Idle accepts u p)
      (hk : k ≤ sent ∨ d.SteadyAt u r) :
      Outgoing accepts u r sent u (old ++ List.replicate k r)
  | after (k : ℕ) (hk : k < sent ∨ d.SteadyAt u r) :
      Outgoing accepts u r sent (d.handle u r).1 (List.replicate k r)

/-- The answers that they will get. -/
def answers (u : υ) (outbox : List ρ) : List φ := outbox.map fun p => (d.handle u p).2

namespace Outgoing

variable {d} {accepts : φ → Bool} {u unit : υ} {r p : ρ} {sent : ℕ} {outbox : List ρ}

theorem unit_eq (h : d.Outgoing accepts u r sent unit outbox) :
    unit = u ∨ unit = (d.handle u r).1 := by
  cases h with
  | before => exact .inl rfl
  | after => exact .inr rfl

/-- It is not sent yet. -/
theorem start (hold : ∀ p ∈ outbox, d.Idle accepts u p) :
    d.Outgoing accepts u r 0 u outbox := by
  have hstart : d.Outgoing accepts u r 0 u (outbox ++ List.replicate 0 r) :=
    before outbox 0 hold (.inl (Nat.le_refl 0))
  rwa [List.replicate_zero, List.append_nil] at hstart

/-- It is sent once more. -/
theorem send (h : d.Outgoing accepts u r sent unit outbox) :
    d.Outgoing accepts u r (sent + 1) unit (outbox ++ [r]) := by
  cases h with
  | before old k hold hk =>
    rw [List.append_assoc, ← List.replicate_succ']
    exact .before old _ hold (hk.imp_left Nat.succ_le_succ)
  | after k hk =>
    rw [← List.replicate_succ']
    exact .after _ (hk.imp_left Nat.succ_lt_succ)

/-- The first of them is lost. -/
theorem lose (h : d.Outgoing accepts u r sent unit (p :: outbox)) :
    d.Outgoing accepts u r sent unit outbox := by
  generalize hl : p :: outbox = l at h
  cases h with
  | before old k hold hk =>
    cases old with
    | nil =>
      cases k with
      | zero => cases hl
      | succ k =>
        obtain ⟨-, rfl⟩ := List.cons.inj hl
        exact .before [] k (by simp) (hk.imp_left Nat.le_of_succ_le)
    | cons q old =>
      obtain ⟨-, rfl⟩ := List.cons.inj hl
      exact .before old k (List.forall_mem_cons.1 hold).2 hk
  | after k hk =>
    cases k with
    | zero => cases hl
    | succ k =>
      obtain ⟨-, rfl⟩ := List.cons.inj hl
      exact .after k (hk.imp_left Nat.lt_of_succ_lt)

/-- The first of them is handled : it is idle, or `r`, which is handled like the first time. -/
theorem handle (h : d.Outgoing accepts u r sent unit (p :: outbox))
    (hsent : sent ≤ 1 ∨ d.SteadyAt u r) :
    unit = u ∧ d.Idle accepts u p ∧ d.Outgoing accepts u r sent u outbox ∨
      p = r ∧ d.handle unit p = d.handle u r ∧
        d.Outgoing accepts u r sent (d.handle u r).1 outbox := by
  generalize hl : p :: outbox = l at h
  cases h with
  | before old k hold hk =>
    cases old with
    | nil =>
      cases k with
      | zero => cases hl
      | succ k =>
        obtain ⟨rfl, rfl⟩ := List.cons.inj hl
        exact .inr ⟨rfl, rfl, .after k (hk.imp_left Nat.lt_of_succ_le)⟩
    | cons q old =>
      obtain ⟨rfl, rfl⟩ := List.cons.inj hl
      obtain ⟨hidle, hold⟩ := List.forall_mem_cons.1 hold
      exact .inl ⟨rfl, hidle, .before old k hold hk⟩
  | after k hk =>
    cases k with
    | zero => cases hl
    | succ k =>
      obtain ⟨rfl, rfl⟩ := List.cons.inj hl
      have hsteady : d.SteadyAt u p := by
        rcases hk with hk | hk
        · exact hsent.resolve_left (by omega)
        · exact hk
      exact .inr ⟨rfl, hsteady, .after k (.inr hsteady)⟩

/-- Once it is handled there are more of them only where it is steady. -/
theorem steadyAt (h : d.Outgoing accepts u r sent (d.handle u r).1 (p :: outbox))
    (hsent : sent ≤ 1 ∨ d.SteadyAt u r) : d.SteadyAt u r := by
  obtain ⟨hunit, -⟩ | ⟨rfl, hhandle, -⟩ := h.handle hsent
  · rw [SteadyAt, hunit]
  · exact hhandle

/-- Where all their answers are accepted, none is of another call. -/
theorem eq_of_accepts (h : d.Outgoing accepts u r sent unit outbox)
    (haccepts : ∀ f ∈ d.answers u outbox, accepts f = true) : ∀ p ∈ outbox, p = r := by
  intro p hp
  cases h with
  | before old k hold hk =>
    rcases List.mem_append.1 hp with hp' | hp'
    · have htaken := haccepts _ (List.mem_map_of_mem hp)
      rw [(hold p hp').refused] at htaken
      cases htaken
    · exact List.eq_of_mem_replicate hp'
  | after => exact List.eq_of_mem_replicate hp

end Outgoing

end Device

/-! ## The answers under way -/

variable {φ : Type*} {accepts : φ → Bool} {answer : φ} {line line' : List φ}

/-- Of the answers under way, those before the first `answer` are not accepted, and no others
follow. -/
def Due (accepts : φ → Bool) (answer : φ) (line : List φ) : Prop :=
  ∃ old own, line = old ++ own ∧ (∀ f ∈ old, accepts f = false) ∧ ∀ f ∈ own, f = answer

theorem Due.of_old (h : ∀ f ∈ line, accepts f = false) : Due accepts answer line :=
  ⟨line, [], by simp, h, by simp⟩

theorem Due.of_own (h : ∀ f ∈ line, f = answer) : Due accepts answer line :=
  ⟨[], line, rfl, by simp, h⟩

/-- The device answers once more. -/
theorem Due.send (h : Due accepts answer line) : Due accepts answer (line ++ [answer]) := by
  obtain ⟨old, own, rfl, hold, hown⟩ := h
  refine ⟨old, own ++ [answer], by simp, hold, fun f hf => ?_⟩
  rcases List.mem_append.1 hf with hf | hf
  · exact hown f hf
  · exact List.mem_singleton.1 hf

/-- What is accepted is the answer, and all behind it is the answer again. -/
theorem Due.take {f : φ} {rest : List φ} (h : Due accepts answer (f :: rest))
    (hf : accepts f = true) : f = answer ∧ ∀ g ∈ rest, g = answer := by
  obtain ⟨old, own, heq, hold, hown⟩ := h
  cases old with
  | nil =>
    obtain rfl : f :: rest = own := heq
    exact List.forall_mem_cons.1 hown
  | cons g old =>
    obtain ⟨rfl, -⟩ := List.cons.inj heq
    exact absurd hf (by simp [hold f List.mem_cons_self])

/-- Some answers come, or are lost. -/
theorem Due.sublist (h : Due accepts answer line) (hsub : line'.Sublist line) :
    Due accepts answer line' := by
  obtain ⟨old, own, rfl, hold, hown⟩ := h
  obtain ⟨old', own', rfl, hold', hown'⟩ := List.sublist_append_iff.1 hsub
  exact ⟨old', own', rfl, fun f hf => hold f (hold'.subset hf),
    fun f hf => hown f (hown'.subset hf)⟩

end Mtrtk
