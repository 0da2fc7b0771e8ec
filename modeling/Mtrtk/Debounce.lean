import Mathlib.Algebra.Order.Group.Defs
import Mathlib.Algebra.Order.Sub.Basic
import Mathlib.Data.List.Induction
import Mathlib.Tactic.Common

/-!
# Debouncing

A debouncer takes the samples of a sensor as they come and reports a fault only when it has
lasted : the first bad sample stamps the time (`badSince`), any other resets the stamp, and a bad
sample that finds the stamp a grace ago raises the fault. A good sample ends it. Between the two
there may be a band that does neither. One that is not `armed` waits for a good sample first :
only what was good can be lost.

What it reports is told by the samples alone (`Debouncer.takes_spec`) : under a clock that never
goes back, a sample raises the fault if and only if it is bad, the fault is not up, and every
sample from one at least the grace ago was bad (`Lasted`).
-/

namespace Mtrtk

/-- What a sample says of the fault : it is not there, it may or may not be, it is. -/
inductive Verdict
  | good | middling | bad
  deriving DecidableEq, Repr

variable {τ : Type*}

/-- A debouncer, with the rises and falls it has reported. -/
@[ext]
structure Debouncer (τ : Type*) where
  armed : Bool
  badSince : Option τ := none
  active : Bool := false
  edges : List Bool := []

/-- What has been bad without a break since a sample at `since` : every sample from that one was
bad, and, unless the debouncer `began` armed, a good one came before it. -/
def BadFrom (began : Bool) (taken : List (τ × Verdict)) (since : τ) : Prop :=
  ∃ front back, taken = front ++ (since, .bad) :: back ∧ (∀ x ∈ back, x.2 = .bad) ∧
    (began = true ∨ ∃ x ∈ front, x.2 = .good)

/-- It has been bad for the grace when the clock reads `now`. -/
def Lasted [LE τ] [Sub τ] (began : Bool) (grace : τ) (taken : List (τ × Verdict)) (now : τ) :
    Prop :=
  ∃ since ≤ now - grace, BadFrom began taken since

/-- What is bad from some time on may be raised : it began so, or was good before. -/
theorem BadFrom.counts {began : Bool} {taken : List (τ × Verdict)} {since : τ}
    (h : BadFrom began taken since) : began = true ∨ ∃ x ∈ taken, x.2 = .good := by
  obtain ⟨front, back, rfl, -, hgood⟩ := h
  refine hgood.imp_right ?_
  rintro ⟨x, hx, hgood⟩
  exact ⟨x, by simp [hx], hgood⟩

theorem badFrom_append {began : Bool} {taken : List (τ × Verdict)} {now : τ} {r : Verdict}
    {since : τ} :
    BadFrom began (taken ++ [(now, r)]) since ↔
      r = .bad ∧ (BadFrom began taken since ∨
        since = now ∧ (began = true ∨ ∃ x ∈ taken, x.2 = .good)) := by
  constructor
  · rintro ⟨front, back, heq, hback, hgood⟩
    rcases List.eq_nil_or_concat back with rfl | ⟨back, last, rfl⟩
    · obtain ⟨rfl, hlast⟩ := List.append_inj' heq rfl
      simp only [List.cons.injEq, Prod.mk.injEq, and_true] at hlast
      exact ⟨hlast.2, .inr ⟨hlast.1.symm, hgood⟩⟩
    · rw [List.concat_eq_append, ← List.cons_append, ← List.append_assoc] at heq
      obtain ⟨rfl, hlast⟩ := List.append_inj' heq rfl
      obtain rfl : (now, r) = last := by simpa using hlast
      refine ⟨hback (now, r) (by simp), .inl ⟨front, back, rfl, ?_, hgood⟩⟩
      exact fun x hx => hback x (by simp [hx])
  · rintro ⟨rfl, ⟨front, back, rfl, hback, hgood⟩ | ⟨rfl, hgood⟩⟩
    · refine ⟨front, back ++ [(now, .bad)], by simp, ?_, hgood⟩
      intro x hx
      rcases List.mem_append.1 hx with hx | hx
      · exact hback x hx
      · simp_all
    · exact ⟨taken, [], rfl, by simp, hgood⟩

/-- What one sample does to the fault and to the rises and falls reported : a bad one raises a
fault that is not up and has lasted, a good one ends a fault that is up, and nothing else is
reported. -/
structure Reports (lasted : Prop) (r : Option Verdict) (active active' : Bool)
    (edges edges' : List Bool) : Prop where
  raises : edges' = edges ++ [true] ↔ r = some .bad ∧ lasted ∧ active = false
  clears : edges' = edges ++ [false] ↔ r = some .good ∧ active = true
  nothingElse : edges' = edges ∨ edges' = edges ++ [true] ∨ edges' = edges ++ [false]
  up : active' = true ↔ active = true ∧ r ≠ some .good ∨ edges' = edges ++ [true]

/-- What is no sample of the fault reports nothing. -/
theorem Reports.none {lasted : Prop} {active : Bool} {edges : List Bool} :
    Reports lasted none active active edges edges :=
  ⟨by simp, by simp, .inl rfl, by simp⟩

namespace Debouncer

/-- The fault is up : a fault that is up already is the same. -/
def raise (d : Debouncer τ) : Debouncer τ :=
  if d.active then d else { d with active := true, edges := d.edges ++ [true] }

/-- The fault is over. -/
def clear (d : Debouncer τ) : Debouncer τ :=
  if d.active then { d with active := false, edges := d.edges ++ [false] } else d

@[simp] theorem raise_active (d : Debouncer τ) : d.raise.active = true := by
  unfold raise
  split <;> simp_all

@[simp] theorem clear_active (d : Debouncer τ) : d.clear.active = false := by
  unfold clear
  split <;> simp_all

@[simp] theorem raise_armed (d : Debouncer τ) : d.raise.armed = d.armed := by
  unfold raise
  split <;> rfl

@[simp] theorem clear_armed (d : Debouncer τ) : d.clear.armed = d.armed := by
  unfold clear
  split <;> rfl

@[simp] theorem raise_badSince (d : Debouncer τ) : d.raise.badSince = d.badSince := by
  unfold raise
  split <;> rfl

@[simp] theorem clear_badSince (d : Debouncer τ) : d.clear.badSince = d.badSince := by
  unfold clear
  split <;> rfl

variable [AddCommGroup τ] [LinearOrder τ]

/-- A sample taken when the clock reads `now`. -/
def take (grace : τ) (d : Debouncer τ) (now : τ) : Verdict → Debouncer τ
  | .good => { d with armed := true, badSince := none }.clear
  | .middling => { d with badSince := none }
  | .bad =>
    if d.armed then
      match d.badSince with
      | none => { d with badSince := some now }
      | some since => if grace ≤ now - since then d.raise else d
    else d

/-- The debouncer after the samples. -/
def takes (grace : τ) (d : Debouncer τ) (taken : List (τ × Verdict)) : Debouncer τ :=
  taken.foldl (fun d x => d.take grace x.1 x.2) d

@[simp] theorem takes_append (grace : τ) (d : Debouncer τ) (taken : List (τ × Verdict))
    (x : τ × Verdict) :
    d.takes grace (taken ++ [x]) = (d.takes grace taken).take grace x.1 x.2 := by
  simp [takes]

/-! ## What it remembers -/

/-- It is armed if it began so or a good sample came, and the stamp is the earliest time it has
been bad from. -/
structure Remembers (began : Bool) (taken : List (τ × Verdict)) (d : Debouncer τ) : Prop where
  armed : d.armed = true ↔ began = true ∨ ∃ x ∈ taken, x.2 = .good
  since : ∀ s, d.badSince = some s → BadFrom began taken s
  earliest : ∀ s, BadFrom began taken s → ∃ s' ≤ s, d.badSince = some s'

variable {began : Bool} {grace : τ} {taken : List (τ × Verdict)} {d : Debouncer τ}

omit [AddCommGroup τ] in
theorem Remembers.begin : Remembers began [] ({ armed := began } : Debouncer τ) where
  armed := by simp
  since := by simp
  earliest := by
    rintro s ⟨front, back, heq, -⟩
    simp at heq

theorem Remembers.take {now : τ} (h : Remembers began taken d)
    (hclock : ∀ x ∈ taken, x.1 ≤ now) (r : Verdict) :
    Remembers began (taken ++ [(now, r)]) (d.take grace now r) := by
  have hreset : r ≠ .bad → ∀ s, ¬BadFrom began (taken ++ [(now, r)]) s :=
    fun hr s hs => hr (badFrom_append.1 hs).1
  cases r with
  | good =>
    refine ⟨by simp [Debouncer.take], by simp [Debouncer.take], fun s hs => ?_⟩
    exact absurd hs (hreset (by simp) s)
  | middling =>
    refine ⟨by simpa [Debouncer.take] using h.armed, by simp [Debouncer.take], fun s hs => ?_⟩
    exact absurd hs (hreset (by simp) s)
  | bad =>
    by_cases harmed : d.armed = true
    · cases hsince : d.badSince with
      | none =>
        have hnew : d.take grace now .bad = { d with badSince := some now } := by
          simp [Debouncer.take, harmed, hsince]
        rw [hnew]
        refine ⟨by simpa using h.armed, fun s hs => ?_, fun s hs => ?_⟩
        · obtain rfl : now = s := by simpa using hs
          exact badFrom_append.2 ⟨rfl, .inr ⟨rfl, h.armed.1 harmed⟩⟩
        · rcases (badFrom_append.1 hs).2 with hold | ⟨rfl, -⟩
          · obtain ⟨s', -, hs'⟩ := h.earliest s hold
            simp [hsince] at hs'
          · exact ⟨s, le_rfl, rfl⟩
      | some since =>
        have hkept : (d.take grace now .bad).armed = d.armed ∧
            (d.take grace now .bad).badSince = d.badSince := by
          simp only [Debouncer.take, harmed, hsince, if_true]
          split <;> simp [harmed, hsince]
        have hfrom := h.since since hsince
        refine ⟨by simpa [hkept.1] using h.armed, fun s hs => ?_, fun s hs => ?_⟩
        · rw [hkept.2] at hs
          exact badFrom_append.2 ⟨rfl, .inl (h.since s hs)⟩
        · rw [hkept.2]
          rcases (badFrom_append.1 hs).2 with hold | ⟨rfl, -⟩
          · exact h.earliest s hold
          · obtain ⟨front, back, rfl, -⟩ := hfrom
            exact ⟨since, hclock (since, .bad) (by simp), hsince⟩
    · -- Nothing was good yet, so nothing has been bad from a sample that counts.
      have hkept : d.take grace now .bad = d := by simp [Debouncer.take, harmed]
      have hnone : ¬(began = true ∨ ∃ x ∈ taken, x.2 = .good) := mt h.armed.2 harmed
      rw [hkept]
      refine ⟨by simpa using h.armed, fun s hs => ?_, fun s hs => ?_⟩
      · exact badFrom_append.2 ⟨rfl, .inl (h.since s hs)⟩
      · rcases (badFrom_append.1 hs).2 with hold | ⟨-, hgood⟩
        · exact h.earliest s hold
        · exact absurd hgood hnone

theorem remembers_takes (hclock : taken.Pairwise fun x y => x.1 ≤ y.1) :
    Remembers began taken (({ armed := began } : Debouncer τ).takes grace taken) := by
  induction taken using List.reverseRecOn with
  | nil => exact Remembers.begin
  | append_singleton taken x ih =>
    obtain ⟨hfront, -, hlast⟩ := List.pairwise_append.1 hclock
    rw [takes_append]
    exact (ih hfront).take (fun y hy => hlast y hy x (by simp)) x.2

/-! ## What it reports -/

variable [IsOrderedAddMonoid τ]

/-- The stamp is a grace old if and only if it has been bad for the grace. -/
theorem Remembers.lasted_iff {now : τ} (h : Remembers began taken d) :
    Lasted began grace taken now ↔ ∃ since, d.badSince = some since ∧ grace ≤ now - since := by
  constructor
  · rintro ⟨s, hs, hfrom⟩
    obtain ⟨since, hle, hsince⟩ := h.earliest s hfrom
    exact ⟨since, hsince, le_sub_comm.1 (hle.trans hs)⟩
  · rintro ⟨since, hsince, hle⟩
    exact ⟨since, le_sub_comm.1 hle, h.since since hsince⟩

theorem Remembers.take_bad {now : τ} (h : Remembers began taken d) :
    ∃ d₀ : Debouncer τ, d₀.active = d.active ∧ d₀.edges = d.edges ∧
      (Lasted began grace taken now → d.take grace now .bad = d₀.raise) ∧
      (¬Lasted began grace taken now → d.take grace now .bad = d₀) := by
  rw [h.lasted_iff]
  by_cases harmed : d.armed = true
  · cases hsince : d.badSince with
    | none =>
      refine ⟨{ d with badSince := some now }, rfl, rfl, by simp, fun _ => ?_⟩
      simp [Debouncer.take, harmed, hsince]
    | some since =>
      refine ⟨d, rfl, rfl, fun hle => ?_, fun hle => ?_⟩
      · have hgrace : grace ≤ now - since := by simpa using hle
        simp [Debouncer.take, harmed, hsince, hgrace]
      · have hgrace : ¬grace ≤ now - since := by simpa using hle
        simp [Debouncer.take, harmed, hsince, hgrace]
  · have hkept : d.take grace now .bad = d := by simp [Debouncer.take, harmed]
    refine ⟨d, rfl, rfl, ?_, fun _ => hkept⟩
    rintro ⟨since, hsince, -⟩
    exact absurd (h.armed.2 (h.since since hsince).counts) harmed

/-- What a sample does is told by the samples before it. -/
theorem Remembers.reports {now : τ} (h : Remembers began taken d) (r : Verdict) :
    Reports (Lasted began grace taken now) (some r) d.active (d.take grace now r).active
      d.edges (d.take grace now r).edges := by
  cases r with
  | good =>
    simp only [Debouncer.take, clear]
    by_cases hact : d.active = true
    · constructor <;> simp [hact]
    · constructor <;> simp [hact]
  | middling => constructor <;> simp [Debouncer.take]
  | bad =>
    obtain ⟨d₀, hactive, hedges, hraise, hkeep⟩ := h.take_bad
    rw [← hactive, ← hedges]
    by_cases hlast : Lasted began grace taken now
    · rw [hraise hlast, raise]
      by_cases hact : d₀.active = true
      · constructor <;> simp [hact]
      · constructor <;> simp [hact, hlast]
    · rw [hkeep hlast]
      constructor <;> simp [hlast]

/-- **What a debouncer reports is told by the samples it has taken**, under a clock that never
goes back. -/
theorem takes_spec {now : τ} (hclock : taken.Pairwise fun x y => x.1 ≤ y.1) (r : Verdict) :
    let d := ({ armed := began } : Debouncer τ).takes grace taken
    Reports (Lasted began grace taken now) (some r) d.active (d.take grace now r).active
      d.edges (d.take grace now r).edges :=
  (remembers_takes hclock).reports r

end Debouncer

end Mtrtk
