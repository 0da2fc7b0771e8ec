import Mathlib.Tactic.Common

/-!
# Code that may raise

An `EStateM` computation returns or raises, and leaves a state in both cases (`leftBy`) : what it
did before the exception stays done. `Keeps P` says that `P` is among what it leaves whenever it
held before. Code keeps `P` as soon as its parts do, wherever one of them raises (`keeps_bind`).
Where the parts are known to return (`Returns`), what the code leaves is what its last part leaves
(`Returns.leftBy_bind`).
-/

namespace Mtrtk

variable {ε σ α β : Type} {P : σ → Prop}

/-! ## How it runs -/

@[simp] theorem run_raised (e : ε) (s : σ) : (throw e : EStateM ε σ α).run s = .error e s := rfl

@[simp] theorem run_mapped (f : α → β) (m : EStateM ε σ α) (s : σ) :
    (f <$> m).run s =
      match m.run s with
      | .ok a t => .ok (f a) t
      | .error e t => .error e t := rfl

@[simp] theorem run_discarded (m : EStateM ε σ α) (s : σ) :
    (discard m : EStateM ε σ PUnit).run s =
      match m.run s with
      | .ok _ t => .ok ⟨⟩ t
      | .error e t => .error e t := rfl

/-- The `finally` part runs in both cases, and an exception of its own is the one raised. -/
@[simp] theorem run_finally (m : EStateM ε σ α) (f : EStateM ε σ β) (s : σ) :
    (tryFinally m f).run s =
      match m.run s with
      | .ok a t => ((fun _ => a) <$> f).run t
      | .error e t => (f >>= fun _ => throw e).run t := by
  unfold tryFinally
  cases h : m s with
  | ok a t =>
    cases hf : f t <;>
      simp [EStateM.run, tryFinally', Functor.map, EStateM.map, h, hf]
  | error e t =>
    cases hf : f t <;>
      simp [EStateM.run, tryFinally', Functor.map, EStateM.map, bind, EStateM.bind, h, hf]
    rfl

/-! ## What it leaves -/

/-- The state the code leaves, whether it returns or raises. -/
def leftBy (m : EStateM ε σ α) (s : σ) : σ :=
  match m.run s with
  | .ok _ t => t
  | .error _ t => t

/-- The code keeps `P`, whether it returns or raises. -/
def Keeps (P : σ → Prop) (m : EStateM ε σ α) : Prop := ∀ s, P s → P (leftBy m s)

theorem keeps_pure (a : α) : Keeps P (pure a : EStateM ε σ α) := fun _ h => h

theorem keeps_throw (e : ε) : Keeps P (throw e : EStateM ε σ α) := fun _ h => h

theorem keeps_get : Keeps P (get : EStateM ε σ σ) := fun _ h => h

theorem keeps_modify {f : σ → σ} (h : ∀ s, P s → P (f s)) :
    Keeps P (modify f : EStateM ε σ PUnit) := h

theorem keeps_bind {m : EStateM ε σ α} {f : α → EStateM ε σ β} (hm : Keeps P m)
    (hf : ∀ a, Keeps P (f a)) : Keeps P (m >>= f) := by
  intro s hs
  have hleft := hm s hs
  rw [leftBy] at hleft ⊢
  rw [EStateM.run_bind]
  cases h : m.run s with
  | ok a t =>
    rw [h] at hleft
    exact hf a t hleft
  | error e t => rwa [h] at hleft

theorem keeps_ite {c : Prop} [Decidable c] {m n : EStateM ε σ α} (hm : Keeps P m)
    (hn : Keeps P n) : Keeps P (if c then m else n) := by
  split
  · exact hm
  · exact hn

/-! ## Where nothing is raised -/

/-- The code returns wherever `P` holds. -/
def Returns (P : σ → Prop) (m : EStateM ε σ α) : Prop :=
  ∀ s, P s → ∃ a, m.run s = .ok a (leftBy m s)

theorem returns_pure (a : α) : Returns P (pure a : EStateM ε σ α) := fun _ _ => ⟨a, rfl⟩

theorem returns_get : Returns P (get : EStateM ε σ σ) := fun s _ => ⟨s, rfl⟩

theorem Returns.leftBy_bind {m : EStateM ε σ PUnit} {f : PUnit → EStateM ε σ β} {s : σ}
    (hm : Returns P m) (hs : P s) : leftBy (m >>= f) s = leftBy (f ⟨⟩) (leftBy m s) := by
  obtain ⟨_, ha⟩ := hm s hs
  conv_lhs => rw [leftBy, EStateM.run_bind, ha]
  rfl

theorem returns_bind {m : EStateM ε σ α} {f : α → EStateM ε σ β} (hm : Returns P m)
    (hkeep : Keeps P m) (hf : ∀ a, Returns P (f a)) : Returns P (m >>= f) := by
  intro s hs
  obtain ⟨a, ha⟩ := hm s hs
  obtain ⟨b, hb⟩ := hf a _ (hkeep s hs)
  have hrun : (m >>= f).run s = (f a).run (leftBy m s) := by rw [EStateM.run_bind, ha]
  refine ⟨b, ?_⟩
  rw [leftBy, hrun, hb]

theorem returns_ite {c : Prop} [Decidable c] {m n : EStateM ε σ α} (hm : Returns P m)
    (hn : Returns P n) : Returns P (if c then m else n) := by
  split
  · exact hm
  · exact hn

end Mtrtk
