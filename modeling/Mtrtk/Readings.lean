import Mathlib.Tactic.Common

/-!
# Readings of a buffer that grows

A reading looks at some elements of a buffer by their index. It fails, it returns `none`
because the buffer is too short, or it returns a value (`Reading.on`). Whoever waits for
more input calls it again on a longer buffer.

`Reads N f Q` : no answer of `f` but `none` is another one on a longer buffer, `f` wants
more only of a buffer shorter than `N`, and its values meet `Q`. There is one rule for each
way a reading is built, so a parser written with them has all three by its shape ; the
values of one part bound where the next part reads.
-/

namespace Mtrtk

universe u

variable {α ε β γ : Type u}

/-- A reading of a buffer of `α`. -/
abbrev Reading (α ε : Type u) := ReaderT (List α) (OptionT (Except ε))

namespace Reading

/-- What a reading makes of a buffer. -/
def on (f : Reading α ε β) (b : List α) : Except ε (Option β) := (f.run b).run

/-- The element at index `i`. -/
def readAt (i : ℕ) : Reading α ε α := fun b => OptionT.mk (.ok b[i]?)

/-- Give up. -/
def fail (e : ε) : Reading α ε β := fun _ => OptionT.mk (.error e)

@[simp] theorem pure_on (x : β) (b : List α) : (pure x : Reading α ε β).on b = .ok (some x) := rfl

@[simp] theorem fail_on (e : ε) (b : List α) : (fail e : Reading α ε β).on b = .error e := rfl

@[simp] theorem readAt_on (i : ℕ) (b : List α) :
    (readAt i : Reading α ε α).on b = .ok b[i]? := rfl

theorem bind_on (f : Reading α ε β) (g : β → Reading α ε γ) (b : List α) :
    (f >>= g).on b =
      match f.on b with
      | .error e => .error e
      | .ok none => .ok none
      | .ok (some x) => (g x).on b := by
  have h : (f >>= g).on b = (f.on b) >>= fun r =>
      match r with
      | some x => (g x).on b
      | none => pure none := rfl
  rw [h]
  cases f.on b with
  | error e => rfl
  | ok r => cases r <;> rfl

theorem bind_on_some {f : Reading α ε β} {g : β → Reading α ε γ} {b : List α} {x : β}
    (h : f.on b = .ok (some x)) : (f >>= g).on b = (g x).on b := by
  rw [bind_on, h]

end Reading

/-- The answers of `f` are settled, it wants more only below `N`, and its values meet `Q`. -/
structure Reads (N : ℕ) (f : Reading α ε β) (Q : β → Prop) : Prop where
  settled : ∀ b u, f.on b ≠ .ok none → f.on (b ++ u) = f.on b
  short : ∀ b, f.on b = .ok none → b.length < N
  post : ∀ b x, f.on b = .ok (some x) → Q x

namespace Reads

variable {N : ℕ} {f : Reading α ε β} {Q : β → Prop}

theorem pure {x : β} (h : Q x) : Reads N (Pure.pure x : Reading α ε β) Q where
  settled _ _ _ := rfl
  short _ hb := by simp at hb
  post _ y hb := by
    obtain rfl : x = y := by simpa using hb
    exact h

theorem fail (e : ε) : Reads N (Reading.fail e : Reading α ε β) Q where
  settled _ _ _ := rfl
  short _ hb := by simp at hb
  post _ _ hb := by simp at hb

theorem readAt {i : ℕ} (h : i < N) : Reads N (Reading.readAt i : Reading α ε α) fun _ => True where
  settled b u hb := by
    have hi : i < b.length := by
      have : ¬b.length ≤ i := fun hle => hb (by simp [List.getElem?_eq_none hle])
      omega
    rw [Reading.readAt_on, Reading.readAt_on, List.getElem?_append_left hi]
  short b hb := by
    have hi : b.length ≤ i := by simpa using hb
    omega
  post _ _ _ := trivial

theorem mono {Q' : β → Prop} (h : Reads N f Q) (hQ : ∀ x, Q x → Q' x) : Reads N f Q' where
  settled := h.settled
  short := h.short
  post b x hx := hQ x (h.post b x hx)

/-- One reading after the other, the second at the values of the first. -/
theorem bind {g : β → Reading α ε γ} {R : γ → Prop} (hf : Reads N f Q)
    (hg : ∀ x, Q x → Reads N (g x) R) : Reads N (f >>= g) R where
  settled b u hb := by
    rw [Reading.bind_on] at hb ⊢
    rw [Reading.bind_on]
    cases hfb : f.on b with
    | error e => rw [hf.settled b u (by simp [hfb]), hfb]
    | ok r =>
      cases r with
      | none => simp [hfb] at hb
      | some x =>
        rw [hf.settled b u (by simp [hfb]), hfb]
        simp only [hfb] at hb ⊢
        exact (hg x (hf.post b x hfb)).settled b u hb
  short b hb := by
    rw [Reading.bind_on] at hb
    cases hfb : f.on b with
    | error e => simp [hfb] at hb
    | ok r =>
      cases r with
      | none => exact hf.short b hfb
      | some x =>
        simp only [hfb] at hb
        exact (hg x (hf.post b x hfb)).short b hb
  post b y hb := by
    rw [Reading.bind_on] at hb
    cases hfb : f.on b with
    | error e => simp [hfb] at hb
    | ok r =>
      cases r with
      | none => simp [hfb] at hb
      | some x =>
        simp only [hfb] at hb
        exact (hg x (hf.post b x hfb)).post b y hb

theorem ite {c : Prop} [Decidable c] {f' : Reading α ε β} (h : c → Reads N f Q)
    (h' : ¬c → Reads N f' Q) : Reads N (if c then f else f') Q := by
  split
  · exact h ‹_›
  · exact h' ‹_›

end Reads

end Mtrtk
