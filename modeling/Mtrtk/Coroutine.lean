import Mathlib.Logic.Relation
import Mathlib.Tactic.Common

/-!
# Coroutines under a lock

A coroutine reads and sets a state of its own accord, and gives up control only where it
waits for the answer to a call (`Co.call`). `Co` is the syntax of such code, a monad, so a
source function with awaits is a `do` block over it. `Co.exec` runs one to its end with a
given world to answer the calls. `LockStep` interleaves : operations run one at a time, as
under a lock, while handlers change the state between their awaits.

`Co.Runs` is a run to the end in such surroundings, with the calls and their answers in
order ; it composes along `>>=` (`Co.runs_bind`).

`Co.wp` is the rule for the latter : an invariant has to hold at every await, and what is
known there of the state is kept only if the handlers keep it (`Co.wp_call`).
`lockStep_invariant` : if every operation meets it, the invariant holds in every state
reached.
-/

namespace Mtrtk

/-- A coroutine over the state `σ` that calls `q : Q` for an answer in `R q` and returns
an `α`. -/
inductive Co (σ Q : Type) (R : Q → Type) (α : Type)
  | ret (a : α)
  | get (k : σ → Co σ Q R α)
  | set (s : σ) (k : Co σ Q R α)
  | call (q : Q) (k : R q → Co σ Q R α)

namespace Co

variable {σ Q : Type} {R : Q → Type} {α β ε : Type}

def bind : Co σ Q R α → (α → Co σ Q R β) → Co σ Q R β
  | .ret a, f => f a
  | .get k, f => .get fun s => (k s).bind f
  | .set s k, f => .set s (k.bind f)
  | .call q k, f => .call q fun r => (k r).bind f

instance : Monad (Co σ Q R) where
  pure := .ret
  bind := .bind

instance : MonadStateOf σ (Co σ Q R) where
  get := .get .ret
  set s := .set s (.ret ())
  modifyGet f := .get fun s => .set (f s).2 (.ret (f s).1)

/-- Wait for the answer to `q`. -/
def ask (q : Q) : Co σ Q R (R q) := .call q .ret

/-! ## Running to the end -/

/-- Run a coroutine with the world `w` answering its calls. `reply` is the answer and what
it leaves of the world and of the state. -/
def exec (reply : (q : Q) → ε → σ → R q × ε × σ) : Co σ Q R α → ε → σ → α × ε × σ
  | .ret a, w, s => (a, w, s)
  | .get k, w, s => (k s).exec reply w s
  | .set s k, w, _ => k.exec reply w s
  | .call q k, w, s => (k (reply q w s).1).exec reply (reply q w s).2.1 (reply q w s).2.2

section Exec

variable (reply : (q : Q) → ε → σ → R q × ε × σ) (w : ε) (s : σ)

@[simp] theorem exec_pure (a : α) : (pure a : Co σ Q R α).exec reply w s = (a, w, s) := rfl

@[simp] theorem exec_bind (c : Co σ Q R α) (f : α → Co σ Q R β) :
    (c >>= f).exec reply w s =
      (f (c.exec reply w s).1).exec reply (c.exec reply w s).2.1 (c.exec reply w s).2.2 := by
  change (c.bind f).exec reply w s = _
  induction c generalizing w s with
  | ret a => rfl
  | get k ih => exact ih s w s
  | set s' k ih => exact ih w s'
  | call q k ih => exact ih _ _ _

@[simp] theorem exec_get : (MonadState.get : Co σ Q R σ).exec reply w s = (s, w, s) := rfl

@[simp] theorem exec_modify (f : σ → σ) :
    (modify f : Co σ Q R PUnit).exec reply w s = ((), w, f s) := rfl

@[simp] theorem exec_discard (c : Co σ Q R α) : (discard c : Co σ Q R PUnit).exec reply w s =
    (⟨⟩, (c.exec reply w s).2) :=
  exec_bind reply w s c fun _ => (pure ⟨⟩ : Co σ Q R PUnit)

@[simp] theorem exec_ask (q : Q) : (ask q : Co σ Q R (R q)).exec reply w s = reply q w s := rfl

end Exec

/-! ## Running in turns -/

/-- The invariant `I` holds at every await of the coroutine, and `post` at its end, when
handlers change the state as in `env` during an await and answers as in `reply`. -/
def wp (I : σ → Prop) (env : σ → σ → Prop) (reply : (q : Q) → R q → σ → σ → Prop) :
    Co σ Q R α → (α → σ → Prop) → σ → Prop
  | .ret a, post, s => post a s
  | .get k, post, s => (k s).wp I env reply post s
  | .set s k, post, _ => k.wp I env reply post s
  | .call q k, post, s => I s ∧ ∀ t, Relation.ReflTransGen env s t →
      ∀ r u, reply q r t u → (k r).wp I env reply post u

section Wp

variable {I : σ → Prop} {env : σ → σ → Prop} {reply : (q : Q) → R q → σ → σ → Prop}
  {post : α → σ → Prop} {s : σ}

@[simp] theorem wp_pure (a : α) :
    (pure a : Co σ Q R α).wp I env reply post s ↔ post a s := Iff.rfl

@[simp] theorem wp_get {post : σ → σ → Prop} :
    (MonadState.get : Co σ Q R σ).wp I env reply post s ↔ post s s := Iff.rfl

@[simp] theorem wp_modify (f : σ → σ) {post : PUnit → σ → Prop} :
    (modify f : Co σ Q R PUnit).wp I env reply post s ↔ post ⟨⟩ (f s) := Iff.rfl

@[simp] theorem wp_bind (c : Co σ Q R β) (f : β → Co σ Q R α) :
    (c >>= f).wp I env reply post s ↔
      c.wp I env reply (fun b t => (f b).wp I env reply post t) s := by
  change (c.bind f).wp I env reply post s ↔ _
  induction c generalizing s with
  | ret a => exact Iff.rfl
  | get k ih => exact ih s
  | set s' k ih => exact ih
  | call q k ih =>
    exact and_congr_right fun _ => forall₂_congr fun t _ => forall₃_congr fun r u _ => ih r

@[simp] theorem wp_discard (c : Co σ Q R α) {post : PUnit → σ → Prop} :
    (discard c : Co σ Q R PUnit).wp I env reply post s ↔
      c.wp I env reply (fun _ => post ⟨⟩) s :=
  wp_bind c fun _ => (pure ⟨⟩ : Co σ Q R PUnit)

/-- An await : of what is known, `P` is what the handlers keep. -/
theorem wp_ask {q : Q} {post : R q → σ → Prop} (P : σ → Prop) (hI : I s) (hP : P s)
    (henv : ∀ t u, P t → env t u → P u) (hpost : ∀ t, P t → ∀ r u, reply q r t u → post r u) :
    (ask q : Co σ Q R (R q)).wp I env reply post s := by
  refine ⟨hI, fun t ht r u hu => hpost t ?_ r u hu⟩
  clear hu
  induction ht with
  | refl => exact hP
  | tail _ hstep ih => exact henv _ _ ih hstep

end Wp

/-! ## What was called -/

/-- A coroutine runs from a state to its end, the handlers changing the state as in `env`
while it waits : the calls with their answers, what it returns, and the last state. -/
inductive Runs (env : σ → σ → Prop) (reply : (q : Q) → R q → σ → σ → Prop) :
    Co σ Q R α → σ → List ((q : Q) × R q) → α → σ → Prop
  | ret (a : α) (s : σ) : Runs env reply (.ret a) s [] a s
  | get {k : σ → Co σ Q R α} {s l a t} (h : Runs env reply (k s) s l a t) :
      Runs env reply (.get k) s l a t
  | set {k : Co σ Q R α} {s s' l a t} (h : Runs env reply k s' l a t) :
      Runs env reply (.set s' k) s l a t
  | call {q : Q} {k : R q → Co σ Q R α} {s s₁ s₂ r l a t}
      (henv : Relation.ReflTransGen env s s₁) (hr : reply q r s₁ s₂)
      (h : Runs env reply (k r) s₂ l a t) : Runs env reply (.call q k) s (⟨q, r⟩ :: l) a t

section Runs

variable {env : σ → σ → Prop} {reply : (q : Q) → R q → σ → σ → Prop} {s t : σ}

@[simp] theorem runs_pure {a b : α} {l : List ((q : Q) × R q)} :
    Runs env reply (pure a : Co σ Q R α) s l b t ↔ l = [] ∧ b = a ∧ t = s := by
  constructor
  · rintro ⟨⟩
    exact ⟨rfl, rfl, rfl⟩
  · rintro ⟨rfl, rfl, rfl⟩
    exact .ret _ _

@[simp] theorem runs_get {a : σ} {l : List ((q : Q) × R q)} :
    Runs env reply (MonadState.get : Co σ Q R σ) s l a t ↔ l = [] ∧ a = s ∧ t = s := by
  constructor
  · rintro ⟨⟩
    exact runs_pure.1 ‹_›
  · exact fun h => .get (runs_pure.2 h)

@[simp] theorem runs_modify {f : σ → σ} {a : PUnit} {l : List ((q : Q) × R q)} :
    Runs env reply (modify f : Co σ Q R PUnit) s l a t ↔ l = [] ∧ t = f s := by
  constructor
  · rintro ⟨⟩
    cases ‹Runs env reply (.set (f s) _) s l a t›
    obtain ⟨hl, -, ht⟩ := runs_pure.1 ‹_›
    exact ⟨hl, ht⟩
  · rintro ⟨rfl, rfl⟩
    exact .get (.set (.ret _ _))

@[simp] theorem runs_ask {q : Q} {r : R q} {l : List ((q : Q) × R q)} :
    Runs env reply (ask q) s l r t ↔
      l = [⟨q, r⟩] ∧ ∃ u, Relation.ReflTransGen env s u ∧ reply q r u t := by
  constructor
  · intro h
    cases h with
    | call henv hr h =>
      obtain ⟨rfl, rfl, rfl⟩ := runs_pure.1 h
      exact ⟨rfl, _, henv, hr⟩
  · rintro ⟨rfl, u, henv, hr⟩
    exact .call henv hr (.ret _ _)

/-- One after the other. -/
theorem runs_bind {c : Co σ Q R β} {f : β → Co σ Q R α} {a : α} {l : List ((q : Q) × R q)} :
    Runs env reply (c >>= f) s l a t ↔
      ∃ l₁ l₂ b u, Runs env reply c s l₁ b u ∧ Runs env reply (f b) u l₂ a t ∧ l = l₁ ++ l₂ := by
  change Runs env reply (c.bind f) s l a t ↔ _
  constructor
  · intro h
    induction c generalizing s l with
    | ret b => exact ⟨[], l, b, s, .ret _ _, h, rfl⟩
    | get k ih =>
      cases h with
      | get h =>
        obtain ⟨l₁, l₂, b, u, h₁, h₂, rfl⟩ := ih s h
        exact ⟨l₁, l₂, b, u, .get h₁, h₂, rfl⟩
    | set s' k ih =>
      cases h with
      | set h =>
        obtain ⟨l₁, l₂, b, u, h₁, h₂, rfl⟩ := ih h
        exact ⟨l₁, l₂, b, u, .set h₁, h₂, rfl⟩
    | call q k ih =>
      cases h with
      | call henv hr h =>
        obtain ⟨l₁, l₂, b, u, h₁, h₂, rfl⟩ := ih _ h
        exact ⟨_ :: l₁, l₂, b, u, .call henv hr h₁, h₂, rfl⟩
  · rintro ⟨l₁, l₂, b, u, h₁, h₂, rfl⟩
    induction h₁ with
    | ret b s => exact h₂
    | get _ ih => exact .get (ih h₂)
    | set _ ih => exact .set (ih h₂)
    | call henv hr _ ih => exact .call henv hr (ih h₂)

theorem runs_discard {c : Co σ Q R α} {a : PUnit} {l : List ((q : Q) × R q)} :
    Runs env reply (discard c : Co σ Q R PUnit) s l a t ↔ ∃ b, Runs env reply c s l b t := by
  refine Iff.trans (runs_bind ) ?_
  constructor
  · rintro ⟨l₁, l₂, b, u, h₁, h₂, rfl⟩
    obtain ⟨rfl, -, rfl⟩ := runs_pure.1 h₂
    exact ⟨b, by rwa [List.append_nil]⟩
  · rintro ⟨b, h⟩
    exact ⟨l, [], b, t, h, runs_pure.2 ⟨rfl, rfl, rfl⟩, by rw [List.append_nil]⟩

/-- The run in which each call has its answer from `f`, and no handler does anything. -/
def answered (f : (q : Q) → R q) : Co σ Q R α → σ → List ((q : Q) × R q) × α × σ
  | .ret a, s => ([], a, s)
  | .get k, s => (k s).answered f s
  | .set s k, _ => k.answered f s
  | .call q k, s => (⟨q, f q⟩ :: ((k (f q)).answered f s).1, ((k (f q)).answered f s).2)

theorem runs_answered (f : (q : Q) → R q) (hreply : ∀ q s, reply q (f q) s s) (c : Co σ Q R α) (s : σ) :
    Runs env reply c s (c.answered f s).1 (c.answered f s).2.1 (c.answered f s).2.2 := by
  induction c generalizing s with
  | ret a => exact .ret a s
  | get k ih => exact .get (ih s s)
  | set s' k ih => exact .set (ih s')
  | call q k ih => exact .call .refl (hreply q s) (ih (f q) s)

end Runs

end Co

/-! ## The lock -/

variable {σ Q : Type} {R : Q → Type}

/-- The state and, while the lock is held, the call its holder waits for and how the holder
goes on. -/
structure Locked (σ Q : Type) (R : Q → Type) where
  state : σ
  holder : Option ((q : Q) × (R q → Co σ Q R Unit)) := none

/-- Where an operation gives up control : the lock is released when it is over. -/
def Locked.settle : Co σ Q R Unit → σ → Locked σ Q R
  | .ret _, s => { state := s }
  | .get k, s => settle (k s) s
  | .set s k, _ => settle k s
  | .call q k, s => { state := s, holder := some ⟨q, k⟩ }

/-- An operation takes the free lock, the call of its holder is answered, or a handler
runs. -/
inductive LockStep (ops : Set (Co σ Q R Unit)) (env : σ → σ → Prop)
    (reply : (q : Q) → R q → σ → σ → Prop) : Locked σ Q R → Locked σ Q R → Prop
  | start {w : Locked σ Q R} {c : Co σ Q R Unit} (hw : w.holder = none) (hc : c ∈ ops) :
      LockStep ops env reply w (.settle c w.state)
  | answer {w : Locked σ Q R} {q : Q} {k : R q → Co σ Q R Unit} {r : R q} {t : σ}
      (hw : w.holder = some ⟨q, k⟩) (hr : reply q r w.state t) :
      LockStep ops env reply w (.settle (k r) t)
  | handle {w : Locked σ Q R} {t : σ} (ht : env w.state t) :
      LockStep ops env reply w { w with state := t }

namespace Locked

variable (I : σ → Prop) (env : σ → σ → Prop) (reply : (q : Q) → R q → σ → σ → Prop)

/-- The invariant, and that the holder of the lock goes on to keep it. -/
def Keeps (w : Locked σ Q R) : Prop :=
  I w.state ∧ ∀ h ∈ w.holder, (Co.call h.1 h.2).wp I env reply (fun _ => I) w.state

variable {I env reply}

theorem keeps_settle {c : Co σ Q R Unit} {s : σ} (h : c.wp I env reply (fun _ => I) s) :
    (settle c s).Keeps I env reply := by
  induction c generalizing s with
  | ret a => exact ⟨h, nofun⟩
  | get k ih => exact ih s h
  | set s' k ih => exact ih h
  | call q k ih => exact ⟨h.1, fun _ hh => Option.some.inj hh ▸ h⟩

end Locked

/-- Where every operation keeps the invariant, and every handler does, it holds in every state
that is reached. -/
theorem lockStep_invariant {ops : Set (Co σ Q R Unit)} {env : σ → σ → Prop}
    {reply : (q : Q) → R q → σ → σ → Prop} (I : σ → Prop)
    (hops : ∀ c ∈ ops, ∀ s, I s → c.wp I env reply (fun _ => I) s)
    (henv : ∀ s t, I s → env s t → I t) {s₀ : σ} (h₀ : I s₀) {w : Locked σ Q R}
    (h : Relation.ReflTransGen (LockStep ops env reply) { state := s₀ } w) : I w.state := by
  suffices w.Keeps I env reply from this.1
  induction h with
  | refl => exact ⟨h₀, nofun⟩
  | tail _ hstep ih =>
    cases hstep with
    | start hw hc => exact Locked.keeps_settle (hops _ hc _ ih.1)
    | answer hw hr => exact Locked.keeps_settle ((ih.2 _ hw).2 _ .refl _ _ hr)
    | handle ht =>
      refine ⟨henv _ _ ih.1 ht, fun h' hh' => ?_⟩
      exact ⟨henv _ _ ih.1 ht, fun u hu => (ih.2 h' hh').2 u (.head ht hu)⟩

end Mtrtk
