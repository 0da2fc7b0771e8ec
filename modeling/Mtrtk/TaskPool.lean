import Mtrtk.Coroutine

/-!
# Coroutines in turns

Any number of coroutines share a state. One at a time runs up to the next call it waits for
(`Co.advance`), then any other may go on, a new one start, one that waits be cancelled, or something
else change the state (`Turn`).

`turns_invariant` : what every coroutine establishes again at each of its awaits, having found it
there, holds between any two turns.
-/

namespace Mtrtk

variable {σ Q : Type} {R : Q → Type} {α β : Type}

/-- A coroutine that waits for an answer. -/
abbrev Waiting (σ Q : Type) (R : Q → Type) (α : Type) := (q : Q) × (R q → Co σ Q R α)

namespace Co

/-- Up to the next await : what is returned or waited for, and the state. -/
def advance : Co σ Q R α → σ → (α ⊕ Waiting σ Q R α) × σ
  | .ret a, s => (.inl a, s)
  | .get k, s => (k s).advance s
  | .set s k, _ => k.advance s
  | .call q k, s => (.inr ⟨q, k⟩, s)

section Advance

variable {s t : σ}

@[simp] theorem advance_pure (a : α) : (pure a : Co σ Q R α).advance s = (.inl a, s) := rfl

@[simp] theorem advance_get : (MonadState.get : Co σ Q R σ).advance s = (.inl s, s) := rfl

@[simp] theorem advance_modify (f : σ → σ) :
    (modify f : Co σ Q R PUnit).advance s = (.inl ⟨⟩, f s) := rfl

@[simp] theorem advance_ask (q : Q) : (ask q : Co σ Q R (R q)).advance s = (.inr ⟨q, pure⟩, s) :=
  rfl

/-- One after the other, the first without an await. -/
theorem advance_bind_inl {c : Co σ Q R β} {f : β → Co σ Q R α} {b : β}
    (h : c.advance s = (.inl b, t)) : (c >>= f).advance s = (f b).advance t := by
  change (c.bind f).advance s = _
  induction c generalizing s with
  | ret a =>
    cases h
    rfl
  | get k ih => exact ih s h
  | set s' k ih => exact ih h
  | call q k ih => cases h

variable {I : σ → Prop} {env : σ → σ → Prop} {reply : (q : Q) → R q → σ → σ → Prop}
  {post : α → σ → Prop}

/-- The rule for a coroutine that returns without an await. -/
theorem wp_of_inl {c : Co σ Q R α} {a : α} (h : c.advance s = (.inl a, t)) (hpost : post a t) :
    c.wp I env reply post s := by
  induction c generalizing s with
  | ret b =>
    cases h
    exact hpost
  | get k ih => exact ih s h
  | set s' k ih => exact ih h
  | call q k ih => cases h

/-- The rule for one that waits. -/
theorem wp_of_inr {c : Co σ Q R α} {w : Waiting σ Q R α} (h : c.advance s = (.inr w, t))
    (hwait : (Co.call w.1 w.2).wp I env reply post t) : c.wp I env reply post s := by
  induction c generalizing s with
  | ret b => cases h
  | get k ih => exact ih s h
  | set s' k ih => exact ih h
  | call q k ih =>
    cases h
    exact hwait

end Advance

end Co

/-! ## The tasks -/

/-- The state, and the coroutines that wait. -/
structure Tasks (σ Q : Type) (R : Q → Type) (α : Type) where
  state : σ
  waiting : List (Waiting σ Q R α) := []

/-- A coroutine goes on, and is over or waits like the others. -/
def Tasks.go (c : Co σ Q R α) (others : List (Waiting σ Q R α)) (s : σ) : Tasks σ Q R α :=
  match c.advance s with
  | (.inl _, t) => { state := t, waiting := others }
  | (.inr w, t) => { state := t, waiting := w :: others }

/-- A coroutine starts, one gets its answer, one is cancelled, or something else happens. -/
inductive Turn (ops : Set (Co σ Q R α)) (env : σ → σ → Prop)
    (reply : (q : Q) → R q → σ → σ → Prop) : Tasks σ Q R α → Tasks σ Q R α → Prop
  | start {w : Tasks σ Q R α} {c : Co σ Q R α} (hc : c ∈ ops) :
      Turn ops env reply w (.go c w.waiting w.state)
  | answer {w : Tasks σ Q R α} {task : Waiting σ Q R α} {others : List (Waiting σ Q R α)}
      {r : R task.1} {t : σ} (hw : w.waiting.Perm (task :: others))
      (hr : reply task.1 r w.state t) : Turn ops env reply w (.go (task.2 r) others t)
  | cancel {w : Tasks σ Q R α} {task : Waiting σ Q R α} {others : List (Waiting σ Q R α)}
      (hw : w.waiting.Perm (task :: others)) : Turn ops env reply w { w with waiting := others }
  | handle {w : Tasks σ Q R α} {t : σ} (ht : env w.state t) :
      Turn ops env reply w { w with state := t }

namespace Tasks

variable (I : σ → Prop) (reply : (q : Q) → R q → σ → σ → Prop)

/-- The invariant is kept by a coroutine, in surroundings that keep it. -/
def Kept (c : Co σ Q R α) (s : σ) : Prop := c.wp I (fun _ t => I t) reply (fun _ => I) s

/-- The invariant, and that whoever waits keeps it. -/
def Keeps (w : Tasks σ Q R α) : Prop :=
  I w.state ∧ ∀ task ∈ w.waiting, ∀ s, I s → Kept I reply (Co.call task.1 task.2) s

variable {I reply} {others : List (Waiting σ Q R α)}

/-- Whoever waits does not know which state it will find. -/
theorem kept_call {q : Q} {k : R q → Co σ Q R α} {s t : σ} (h : Kept I reply (.call q k) s)
    (ht : I t) : Kept I reply (.call q k) t := by
  refine ⟨ht, fun u hu r v hr => h.2 u (.single ?_) r v hr⟩
  induction hu with
  | refl => exact ht
  | tail _ hstep _ => exact hstep

theorem keeps_go {c : Co σ Q R α} {s : σ} (hc : Kept I reply c s)
    (hothers : ∀ task ∈ others, ∀ s, I s → Kept I reply (Co.call task.1 task.2) s) :
    (go c others s).Keeps I reply := by
  induction c generalizing s with
  | ret a => exact ⟨hc, hothers⟩
  | get k ih => exact ih s hc
  | set s' k ih => exact ih hc
  | call q k ih =>
    exact ⟨hc.1, List.forall_mem_cons.2 ⟨fun t ht => kept_call hc ht, hothers⟩⟩

end Tasks

/-- Where every coroutine keeps the invariant, and everything else does, it holds in every state
between two turns. -/
theorem turns_invariant {ops : Set (Co σ Q R α)} {env : σ → σ → Prop}
    {reply : (q : Q) → R q → σ → σ → Prop} (I : σ → Prop)
    (hops : ∀ c ∈ ops, ∀ s, I s → Tasks.Kept I reply c s) (henv : ∀ s t, I s → env s t → I t)
    {s₀ : σ} (h₀ : I s₀) {w : Tasks σ Q R α}
    (h : Relation.ReflTransGen (Turn ops env reply) { state := s₀ } w) : I w.state := by
  suffices w.Keeps I reply from this.1
  induction h with
  | refl => exact ⟨h₀, fun _ ha => absurd ha List.not_mem_nil⟩
  | tail _ hstep ih =>
    cases hstep with
    | start hc => exact Tasks.keeps_go (hops _ hc _ ih.1) ih.2
    | answer hw hr =>
      obtain ⟨htask, hothers⟩ := List.forall_mem_cons.1 fun task ha => ih.2 task (hw.mem_iff.2 ha)
      exact Tasks.keeps_go ((htask _ ih.1).2 _ .refl _ _ hr) hothers
    | cancel hw =>
      exact ⟨ih.1, (List.forall_mem_cons.1 fun task ha => ih.2 task (hw.mem_iff.2 ha)).2⟩
    | handle ht => exact ⟨henv _ _ ih.1 ht, ih.2⟩

end Mtrtk
