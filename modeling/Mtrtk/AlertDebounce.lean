import Mathlib.Algebra.Order.Field.Rat
import Mtrtk.AlertEdges
import Mtrtk.Debounce

/-!
# Conditions that last

Four rules of the alert engine raise a condition only once its samples have been bad for a grace :
`_on_state_fix`, `_on_state_hardware`, `_temperature` and `_on_state_rtk`. Each keeps a stamp of
its own. While no write fails, each is a `Debouncer` (`AlertEngine.debouncer`) : a sample of its
topic is one it takes, and no other message touches it (`Showing.consume`). What the events
table gets is then told by the samples alone (`debounced`).
-/

namespace Mtrtk

open EventsRepo

/-- The conditions raised once a run of bad samples has lasted. -/
inductive Debounced
  | fixLost | jamming | temperatureHigh | rtkLost
  deriving DecidableEq, Repr

namespace Debounced

def condition : Debounced → Condition
  | .fixLost => .fixLost
  | .jamming => .jamming
  | .temperatureHigh => .temperatureHigh
  | .rtkLost => .rtkLost

/-- How long the samples have to be bad. -/
def grace : Debounced → ℚ
  | .fixLost => fixLostGraceS
  | .jamming => jammingSustainS
  | .temperatureHigh => tempSustainS
  | .rtkLost => rtkLostGraceS

/-- Whether it can be raised before a good sample : a fix that never was cannot be lost. -/
def began : Debounced → Bool
  | .fixLost | .rtkLost => false
  | .jamming | .temperatureHigh => true

def fixVerdict (fix : FixInfo) : Verdict := if fix.fixType ≥ 3 then .good else .bad

def jammingVerdict (hw : Hardware) : Verdict := if hw.jammed then .bad else .good

def temperatureVerdict (tempC : ℚ) : Verdict :=
  if tempC ≥ tempHighC then .bad else if tempC < tempClearC then .good else .middling

def rtkVerdict (rtk : RtkStatus) : Verdict := if rtk.carrSoln = carrFixed then .good else .bad

/-- What a message says of the condition, if it is a sample of it. -/
def verdict : Debounced → AlertMessage → Option Verdict
  | .fixLost, .stateFix fix => some (fixVerdict fix)
  | .jamming, .stateHardware hw => some (jammingVerdict hw)
  | .temperatureHigh, .systemStats stats => stats.tempC.map temperatureVerdict
  | .rtkLost, .stateRtk rtk => some (rtkVerdict rtk)
  | _, _ => none

/-- The samples of the condition among the messages, with what the clock read. -/
def samples (r : Debounced) (ms : List (ℚ × AlertMessage)) : List (ℚ × Verdict) :=
  ms.filterMap fun m => (r.verdict m.2).map fun verdict => (m.1, verdict)

/-- What a debouncer takes of a message. -/
def takeOf (r : Debounced) (d : Debouncer ℚ) (m : ℚ × AlertMessage) : Debouncer ℚ :=
  match r.verdict m.2 with
  | some verdict => d.take r.grace m.1 verdict
  | none => d

theorem condition_injective : Function.Injective condition := by
  intro r q h
  cases r <;> cases q <;> first | rfl | exact absurd h (by decide)

theorem condition_ne {c : Condition} (h : c.sampled = false) (r : Debounced) :
    c ≠ r.condition := by
  rintro rfl
  cases r <;> cases h

theorem verdict_of_not_isSample {message : AlertMessage} (h : message.isSample = false)
    (r : Debounced) : r.verdict message = none := by
  cases r <;> cases message <;> first | rfl | cases h

end Debounced

namespace AlertEngine

/-- Whether the rule may raise, whatever it has seen. -/
def armed (e : AlertEngine) : Debounced → Bool
  | .fixLost => e.hadThreeD
  | .jamming | .temperatureHigh => true
  | .rtkLost => e.wasFixed

/-- The stamp of the rule. -/
def badSince (e : AlertEngine) : Debounced → Option ℚ
  | .fixLost => e.fixBadSince
  | .jamming => e.jamSince
  | .temperatureHigh => e.tempHighSince
  | .rtkLost => e.rtkBadSince

/-- The rule with its condition as a debouncer. -/
def debouncer (e : AlertEngine) (r : Debounced) : Debouncer ℚ where
  armed := e.armed r
  badSince := e.badSince r
  active := (e.active r.condition).isSome
  edges := e.events.edges r.condition

/-! ## While no write fails -/

/-- No event is being written and none will fail to be. -/
def Quiet (e : AlertEngine) : Prop := e.raising = ∅ ∧ ∀ i, e.events.pattern i = .stored

variable {e : AlertEngine}

/-- The engine after a row of the condition, which is active then or not. -/
def wrote (e : AlertEngine) (c : Condition) (row : EventsRepo.Event)
    (active : Option EventsRepo.Event) : AlertEngine :=
  { e with
    events := e.events.after row
    published := e.published ++ [row]
    active := Function.update e.active c active }

theorem leftBy_raise_quiet (h : e.Quiet) (c : Condition) (level : Level) (message : String) :
    leftBy (raise c level message) e =
      if (e.active c).isSome then e
      else e.wrote c ⟨level, c.kind, message⟩ (some ⟨level, c.kind, message⟩) := by
  rw [leftBy_raise c level message e (by simp [h.1])]
  simp [EventsRepo.next, h.2, wrote]

theorem leftBy_clear_quiet (h : e.Quiet) (c : Condition) (message : String) :
    leftBy (clear c message) e =
      if (e.active c).isSome then e.wrote c ⟨.info, c.clearedKind, message⟩ none else e := by
  rw [leftBy_clear]
  simp [EventsRepo.next, h.2, wrote]

theorem edges_quiet (h : e.Quiet) (row : EventsRepo.Event) (c : Condition) :
    (e.events.after row).edges c = e.events.edges c ++ (c.edge row.kind).toList := by
  simp [edges_after, EventsRepo.next, h.2]

theorem upkeep_quiet : Upkeep Quiet where
  raise c level message e h := by
    rw [leftBy_raise_quiet h]
    split
    · exact h
    · exact h
  clear c message e h := by
    rw [leftBy_clear_quiet h]
    split
    · exact h
    · exact h
  emit level kind message _ e h := by
    rw [leftBy_emit]
    exact h
  frame e e' hevents _ hraising h := by
    refine ⟨hraising.trans h.1, ?_⟩
    rw [hevents]
    exact h.2

theorem returns_raise (c : Condition) (level : Level) (message : String) :
    Returns Quiet (raise c level message) := by
  intro e h
  by_cases hact : (e.active c).isSome
  · exact ⟨⟨⟩, by simp [leftBy, raise, hact]⟩
  · exact ⟨⟨⟩, by simp [leftBy, raise, hact, h.1, run_emit, EventsRepo.next, h.2]⟩

theorem returns_clear (c : Condition) (message : String) : Returns Quiet (clear c message) := by
  intro e h
  cases hact : e.active c with
  | none => exact ⟨⟨⟩, by simp [leftBy, clear, hact]⟩
  | some event => exact ⟨⟨⟩, by simp [leftBy, clear, hact, run_emit, EventsRepo.next, h.2]⟩

/-! ## The four debouncers -/

/-- The engine is quiet, and its clock and its debouncers are these. -/
structure Showing (now : ℚ) (v : Debounced → Debouncer ℚ) (e : AlertEngine) : Prop where
  quiet : e.Quiet
  clock : e.now = now
  shows : ∀ r, e.debouncer r = v r

variable {now : ℚ} {v : Debounced → Debouncer ℚ}

theorem debouncer_of_timing {e e' : AlertEngine} (hevents : e'.events = e.events)
    (hactive : e'.active = e.active) (htiming : e'.timing = e.timing) (r : Debounced) :
    e'.debouncer r = e.debouncer r := by
  simp only [timing, Prod.mk.injEq] at htiming
  obtain ⟨-, hthree, hfix, hjam, htemp, hfixed, hrtk⟩ := htiming
  cases r <;> simp [debouncer, armed, badSince, *]

/-- A row of another condition is not seen. -/
theorem Showing.wrote_other (h : Showing now v e) {c : Condition} {row : EventsRepo.Event}
    (hother : ∀ r : Debounced, c ≠ r.condition ∧ r.condition.edge row.kind = none)
    (active : Option EventsRepo.Event) : Showing now v (e.wrote c row active) := by
  refine ⟨h.quiet, h.clock, fun r => ?_⟩
  rw [← h.shows r]
  ext1
  · cases r <;> rfl
  · cases r <;> rfl
  · simp [debouncer, wrote, Function.update_of_ne (hother r).1.symm]
  · simp [debouncer, wrote, edges_quiet h.quiet, (hother r).2]

theorem aside_showing (now : ℚ) (v : Debounced → Debouncer ℚ) : Aside (Showing now v) where
  raise {c} hc level message e h := by
    rw [leftBy_raise_quiet h.quiet]
    split
    · exact h
    · refine h.wrote_other (fun r => ⟨Debounced.condition_ne hc r, ?_⟩) _
      exact Condition.edge_kind_of_ne (Debounced.condition_ne hc r)
  clear {c} hc message e h := by
    rw [leftBy_clear_quiet h.quiet]
    split
    · refine h.wrote_other (fun r => ⟨Debounced.condition_ne hc r, ?_⟩) _
      exact Condition.edge_clearedKind_of_ne (Debounced.condition_ne hc r)
    · exact h
  emit level kind message hkind e h := by
    have hleft := upkeep_quiet.emit level kind message hkind e h.quiet
    rw [leftBy_emit] at hleft ⊢
    refine ⟨hleft, h.clock, fun r => ?_⟩
    rw [← h.shows r]
    ext1
    · cases r <;> rfl
    · cases r <;> rfl
    · rfl
    · simp [debouncer, edges_quiet h.quiet, Condition.edge_of_isMoment hkind]
  frame e e' hevents hactive hraising htiming h := by
    refine ⟨upkeep_quiet.frame e e' hevents hactive hraising h.quiet, ?_, fun r => ?_⟩
    · exact (congrArg Prod.fst htiming).trans h.clock
    · rw [debouncer_of_timing hevents hactive htiming, h.shows]

/-- The engine has changed in nothing but what the rule remembers. -/
structure RemembersOnly (r : Debounced) (e e' : AlertEngine) : Prop where
  events : e'.events = e.events
  active : e'.active = e.active
  raising : e'.raising = e.raising
  clock : e'.now = e.now
  other : ∀ q, q ≠ r → e'.armed q = e.armed q ∧ e'.badSince q = e.badSince q

theorem remembersOnly_fix (e : AlertEngine) (had : Bool) (since : Option ℚ) :
    RemembersOnly .fixLost e { e with hadThreeD := had, fixBadSince := since } :=
  ⟨rfl, rfl, rfl, rfl, fun q hq => by cases q <;> first | exact ⟨rfl, rfl⟩ | exact absurd rfl hq⟩

theorem remembersOnly_jam (e : AlertEngine) (since : Option ℚ) :
    RemembersOnly .jamming e { e with jamSince := since } :=
  ⟨rfl, rfl, rfl, rfl, fun q hq => by cases q <;> first | exact ⟨rfl, rfl⟩ | exact absurd rfl hq⟩

theorem remembersOnly_temp (e : AlertEngine) (since : Option ℚ) :
    RemembersOnly .temperatureHigh e { e with tempHighSince := since } :=
  ⟨rfl, rfl, rfl, rfl, fun q hq => by cases q <;> first | exact ⟨rfl, rfl⟩ | exact absurd rfl hq⟩

theorem remembersOnly_rtk (e : AlertEngine) (was : Bool) (since : Option ℚ) :
    RemembersOnly .rtkLost e { e with wasFixed := was, rtkBadSince := since } :=
  ⟨rfl, rfl, rfl, rfl, fun q hq => by cases q <;> first | exact ⟨rfl, rfl⟩ | exact absurd rfl hq⟩

namespace Showing

theorem congr {v' : Debounced → Debouncer ℚ} (h : Showing now v e) (hv : ∀ r, v r = v' r) :
    Showing now v' e :=
  ⟨h.quiet, h.clock, fun r => (h.shows r).trans (hv r)⟩

/-- A row of the condition of a rule is an edge of its debouncer, and of no other. -/
theorem wrote_own (h : Showing now v e) (r : Debounced) (row : EventsRepo.Event) {rises : Bool}
    (hown : r.condition.edge row.kind = some rises)
    (hother : ∀ c, r.condition ≠ c → c.edge row.kind = none) (active : Option EventsRepo.Event) :
    Showing now
      (Function.update v r
        { v r with active := active.isSome, edges := (v r).edges ++ [rises] })
      (e.wrote r.condition row active) := by
  refine ⟨h.quiet, h.clock, fun q => ?_⟩
  rcases eq_or_ne q r with rfl | hne
  · rw [Function.update_self, ← h.shows q]
    ext1
    · cases q <;> rfl
    · cases q <;> rfl
    · simp [debouncer, wrote]
    · simp [debouncer, wrote, edges_quiet h.quiet, hown]
  · have hcond := Debounced.condition_injective.ne hne.symm
    rw [Function.update_of_ne hne, ← h.shows q]
    ext1
    · cases q <;> rfl
    · cases q <;> rfl
    · simp [debouncer, wrote, Function.update_of_ne hcond.symm]
    · simp [debouncer, wrote, edges_quiet h.quiet, hother _ hcond]

/-- What raising the condition of a rule shows. -/
theorem raise (h : Showing now v e) (r : Debounced) (level : Level) (message : String) :
    Showing now (Function.update v r (v r).raise)
      (leftBy (AlertEngine.raise r.condition level message) e) := by
  have hactive : (v r).active = (e.active r.condition).isSome := by rw [← h.shows r]; rfl
  rw [leftBy_raise_quiet h.quiet, Debouncer.raise, hactive]
  split
  · rwa [Function.update_eq_self]
  · exact h.wrote_own r ⟨level, r.condition.kind, message⟩ (Condition.edge_kind _)
      (fun _ => Condition.edge_kind_of_ne) (some ⟨level, r.condition.kind, message⟩)

/-- What clearing the condition of a rule shows. -/
theorem clear (h : Showing now v e) (r : Debounced) (message : String) :
    Showing now (Function.update v r (v r).clear)
      (leftBy (AlertEngine.clear r.condition message) e) := by
  have hactive : (v r).active = (e.active r.condition).isSome := by rw [← h.shows r]; rfl
  rw [leftBy_clear_quiet h.quiet, Debouncer.clear, hactive]
  split
  · exact h.wrote_own r ⟨.info, r.condition.clearedKind, message⟩ (Condition.edge_clearedKind _)
      (fun _ => Condition.edge_clearedKind_of_ne) none
  · rwa [Function.update_eq_self]

/-- What a rule remembers is shown of it, and of no other. -/
theorem remember (h : Showing now v e) {r : Debounced} {e' : AlertEngine}
    (hmem : RemembersOnly r e e') :
    Showing now
      (Function.update v r { v r with armed := e'.armed r, badSince := e'.badSince r }) e' := by
  have hquiet := upkeep_quiet.frame e e' hmem.events hmem.active hmem.raising h.quiet
  refine ⟨hquiet, hmem.clock.trans h.clock, fun q => ?_⟩
  rcases eq_or_ne q r with rfl | hne
  · rw [Function.update_self, ← h.shows q]
    simp [debouncer, hmem.events, hmem.active]
  · rw [Function.update_of_ne hne, ← h.shows q]
    simp [debouncer, hmem.events, hmem.active, hmem.other q hne]

/-! ## One sample -/

/-- A good sample : the rule may raise from now on, the stamp is gone and the condition over. -/
theorem good (h : Showing now v e) {r : Debounced} {e' : AlertEngine} (hmem : RemembersOnly r e e')
    (harmed : e'.armed r = true) (hsince : e'.badSince r = none) (message : String) :
    Showing now (Function.update v r ((v r).take r.grace now .good))
      (leftBy (AlertEngine.clear r.condition message) e') := by
  have hclear := (h.remember hmem).clear r message
  rwa [Function.update_idem, Function.update_self, harmed, hsince] at hclear

/-- A bad sample while the rule may not raise. -/
theorem badUnarmed (h : Showing now v e) {r : Debounced} (harmed : e.armed r = false) :
    Showing now (Function.update v r ((v r).take r.grace now .bad)) e := by
  have hv : (v r).armed = false := by rw [← h.shows r]; exact harmed
  have hsame : (v r).take r.grace now .bad = v r := by simp [Debouncer.take, hv]
  rwa [hsame, Function.update_eq_self]

/-- The first bad sample. -/
theorem badFirst (h : Showing now v e) {r : Debounced} {e' : AlertEngine}
    (hmem : RemembersOnly r e e') (harmed : e.armed r = true) (hkept : e'.armed r = true)
    (hnone : e.badSince r = none) (hsince : e'.badSince r = some e.now) :
    Showing now (Function.update v r ((v r).take r.grace now .bad)) e' := by
  have hva : (v r).armed = true := by rw [← h.shows r]; exact harmed
  have hvs : (v r).badSince = none := by rw [← h.shows r]; exact hnone
  have htake : (v r).take r.grace now .bad =
      { v r with armed := e'.armed r, badSince := e'.badSince r } := by
    simp [Debouncer.take, hva, hvs, hkept, hsince, h.clock]
  rw [htake]
  exact h.remember hmem

/-- A bad sample after others. -/
theorem badAgain (h : Showing now v e) {r : Debounced} (harmed : e.armed r = true) {since : ℚ}
    (hsince : e.badSince r = some since) (level : Level) (message : String) :
    Showing now (Function.update v r ((v r).take r.grace now .bad))
      (if e.now - since ≥ r.grace then leftBy (AlertEngine.raise r.condition level message) e
        else e) := by
  have hva : (v r).armed = true := by rw [← h.shows r]; exact harmed
  have hvs : (v r).badSince = some since := by rw [← h.shows r]; exact hsince
  have hclock := h.clock
  split
  · have htake : (v r).take r.grace now .bad = (v r).raise := by
      simp_all [Debouncer.take]
    rw [htake]
    exact h.raise r level message
  · have htake : (v r).take r.grace now .bad = v r := by
      simp_all [Debouncer.take]
    rwa [htake, Function.update_eq_self]

/-- A sample that neither raises nor clears. -/
theorem middling (h : Showing now v e) {r : Debounced} {e' : AlertEngine}
    (hmem : RemembersOnly r e e') (hkept : e'.armed r = e.armed r) (hsince : e'.badSince r = none) :
    Showing now (Function.update v r ((v r).take r.grace now .middling)) e' := by
  have hmiddle := h.remember hmem
  have harmed : (v r).armed = e.armed r := by rw [← h.shows r]; rfl
  rwa [hkept, hsince, ← harmed] at hmiddle

theorem onStateFix (h : Showing now v e) (fix : FixInfo) :
    Showing now
      (Function.update v .fixLost
        ((v .fixLost).take fixLostGraceS now (Debounced.fixVerdict fix)))
      (leftBy (AlertEngine.onStateFix fix) e) := by
  by_cases hgood : fix.fixType ≥ 3
  · have hrun : leftBy (AlertEngine.onStateFix fix) e =
        leftBy (AlertEngine.clear .fixLost s!"fix restored ({fix.fixTypeName})")
          { e with hadThreeD := true, fixBadSince := none } := by
      simp [leftBy, AlertEngine.onStateFix, hgood]
    rw [hrun, Debounced.fixVerdict, if_pos hgood]
    exact h.good (remembersOnly_fix e true none) rfl rfl _
  rw [Debounced.fixVerdict, if_neg hgood]
  cases hhad : e.hadThreeD with
  | false =>
    have hrun : leftBy (AlertEngine.onStateFix fix) e = e := by
      simp [leftBy, AlertEngine.onStateFix, hgood, hhad]
    rw [hrun]
    exact h.badUnarmed hhad
  | true =>
    cases hsince : e.fixBadSince with
    | none =>
      have hrun : leftBy (AlertEngine.onStateFix fix) e = { e with fixBadSince := some e.now } := by
        simp [leftBy, AlertEngine.onStateFix, hgood, hhad, hsince]
      rw [hrun]
      exact h.badFirst (remembersOnly_fix e e.hadThreeD (some e.now)) hhad hhad hsince rfl
    | some since =>
      have hrun : leftBy (AlertEngine.onStateFix fix) e =
          if e.now - since ≥ fixLostGraceS then
            leftBy (AlertEngine.raise .fixLost .warning
              s!"position fix lost ({fix.fixTypeName})") e
          else e := by
        by_cases hgrace : fixLostGraceS ≤ e.now - since <;>
          simp [leftBy, AlertEngine.onStateFix, hgood, hhad, hsince, hgrace]
      rw [hrun]
      exact h.badAgain (r := .fixLost) hhad hsince _ _

theorem onJamming (h : Showing now v e) (hw : Hardware) :
    Showing now
      (Function.update v .jamming
        ((v .jamming).take jammingSustainS now (Debounced.jammingVerdict hw)))
      (leftBy (AlertEngine.onJamming hw) e) := by
  cases hjam : hw.jammed with
  | false =>
    have hrun : leftBy (AlertEngine.onJamming hw) e =
        leftBy (AlertEngine.clear .jamming s!"RF interference cleared (jam_ind={hw.jamInd})")
          { e with jamSince := none } := by
      simp [leftBy, AlertEngine.onJamming, hjam]
    rw [hrun, Debounced.jammingVerdict, hjam]
    exact h.good (remembersOnly_jam e none) rfl rfl _
  | true =>
    rw [Debounced.jammingVerdict, hjam]
    cases hsince : e.jamSince with
    | none =>
      have hrun : leftBy (AlertEngine.onJamming hw) e = { e with jamSince := some e.now } := by
        simp [leftBy, AlertEngine.onJamming, hjam, hsince]
      rw [hrun]
      exact h.badFirst (remembersOnly_jam e (some e.now)) rfl rfl hsince rfl
    | some since =>
      have hrun : leftBy (AlertEngine.onJamming hw) e =
          if e.now - since ≥ jammingSustainS then
            leftBy (AlertEngine.raise .jamming .warning
              s!"RF interference: jam_ind={hw.jamInd} state={hw.jammingStateName}") e
          else e := by
        by_cases hgrace : jammingSustainS ≤ e.now - since <;>
          simp [leftBy, AlertEngine.onJamming, hjam, hsince, hgrace]
      rw [hrun]
      exact h.badAgain (r := .jamming) rfl hsince _ _

theorem temperature (h : Showing now v e) (tempC : ℚ) :
    Showing now
      (Function.update v .temperatureHigh
        ((v .temperatureHigh).take tempSustainS now (Debounced.temperatureVerdict tempC)))
      (leftBy (AlertEngine.temperature tempC) e) := by
  by_cases hhigh : tempC ≥ tempHighC
  · rw [Debounced.temperatureVerdict, if_pos hhigh]
    cases hsince : e.tempHighSince with
    | none =>
      have hrun : leftBy (AlertEngine.temperature tempC) e =
          { e with tempHighSince := some e.now } := by
        simp [leftBy, AlertEngine.temperature, hhigh, hsince]
      rw [hrun]
      exact h.badFirst (remembersOnly_temp e (some e.now)) rfl rfl hsince rfl
    | some since =>
      have hrun : leftBy (AlertEngine.temperature tempC) e =
          if e.now - since ≥ tempSustainS then
            leftBy (AlertEngine.raise .temperatureHigh .warning
              s!"host temperature {fixedText 0 tempC} °C") e
          else e := by
        by_cases hgrace : tempSustainS ≤ e.now - since <;>
          simp [leftBy, AlertEngine.temperature, hhigh, hsince, hgrace]
      rw [hrun]
      exact h.badAgain (r := .temperatureHigh) rfl hsince _ _
  rw [Debounced.temperatureVerdict, if_neg hhigh]
  by_cases hlow : tempC < tempClearC
  · have hrun : leftBy (AlertEngine.temperature tempC) e =
        leftBy (AlertEngine.clear .temperatureHigh s!"host temperature {fixedText 0 tempC} °C")
          { e with tempHighSince := none } := by
      simp [leftBy, AlertEngine.temperature, hhigh, hlow]
    rw [hrun, if_pos hlow]
    exact h.good (remembersOnly_temp e none) rfl rfl _
  · have hrun : leftBy (AlertEngine.temperature tempC) e = { e with tempHighSince := none } := by
      simp [leftBy, AlertEngine.temperature, hhigh, hlow]
    rw [hrun, if_neg hlow]
    exact h.middling (remembersOnly_temp e none) rfl rfl

theorem onCarrSoln (h : Showing now v e) (rtk : RtkStatus) :
    Showing now
      (Function.update v .rtkLost
        ((v .rtkLost).take rtkLostGraceS now (Debounced.rtkVerdict rtk)))
      (leftBy (AlertEngine.onCarrSoln rtk) e) := by
  by_cases hfixed : rtk.carrSoln = carrFixed
  · have hrun : leftBy (AlertEngine.onCarrSoln rtk) e =
        leftBy (AlertEngine.clear .rtkLost "RTK fixed again")
          { e with wasFixed := true, rtkBadSince := none } := by
      simp [leftBy, AlertEngine.onCarrSoln, hfixed]
    rw [hrun, Debounced.rtkVerdict, if_pos hfixed]
    exact h.good (remembersOnly_rtk e true none) rfl rfl _
  rw [Debounced.rtkVerdict, if_neg hfixed]
  cases hwas : e.wasFixed with
  | false =>
    have hrun : leftBy (AlertEngine.onCarrSoln rtk) e = e := by
      simp [leftBy, AlertEngine.onCarrSoln, hfixed, hwas]
    rw [hrun]
    exact h.badUnarmed hwas
  | true =>
    cases hsince : e.rtkBadSince with
    | none =>
      have hrun : leftBy (AlertEngine.onCarrSoln rtk) e = { e with rtkBadSince := some e.now } := by
        simp [leftBy, AlertEngine.onCarrSoln, hfixed, hwas, hsince]
      rw [hrun]
      exact h.badFirst (remembersOnly_rtk e e.wasFixed (some e.now)) hwas hwas hsince rfl
    | some since =>
      have hrun : leftBy (AlertEngine.onCarrSoln rtk) e =
          if e.now - since ≥ rtkLostGraceS then
            leftBy (AlertEngine.raise .rtkLost .warning
              s!"RTK fixed lost ({rtk.carrSolnName})") e
          else e := by
        by_cases hgrace : rtkLostGraceS ≤ e.now - since <;>
          simp [leftBy, AlertEngine.onCarrSoln, hfixed, hwas, hsince, hgrace]
      rw [hrun]
      exact h.badAgain (r := .rtkLost) hwas hsince _ _

end Showing

/-! ## One message -/

theorem returns_onJamming (hw : Hardware) : Returns Quiet (onJamming hw) := by
  refine returns_bind returns_get keeps_get fun e => returns_ite ?_ ?_
  · cases e.jamSince with
    | none => exact fun _ _ => ⟨_, rfl⟩
    | some since => exact returns_ite (returns_raise _ _ _) (returns_pure _)
  · refine returns_bind (fun _ _ => ⟨_, rfl⟩) ?_ fun _ => returns_clear _ _
    exact upkeep_quiet.remember _ fun _ => ⟨rfl, rfl, rfl⟩

theorem returns_onDiskFree (free : ℚ) : Returns Quiet (onDiskFree free) := by
  have hwarning : ∀ e : AlertEngine, Returns Quiet (if free < e.minFreeGb * diskWarningFactor then
      raise .diskWarning .warning s!"disk free {fixedText 1 free} GB"
      else clear .diskWarning s!"disk free {fixedText 1 free} GB") :=
    fun e => returns_ite (returns_raise _ _ _) (returns_clear _ _)
  refine returns_bind returns_get keeps_get fun e => returns_ite ?_ (returns_ite ?_ (hwarning e))
  · exact returns_bind (returns_raise _ _ _) (upkeep_quiet.raise _ _ _) fun _ => hwarning e
  · exact returns_bind (returns_clear _ _) (upkeep_quiet.clear _ _) fun _ => hwarning e

theorem returns_onCorrAge (rtk : RtkStatus) : Returns Quiet (onCorrAge rtk) := by
  unfold onCorrAge
  cases rtk.corrAgeS with
  | none => exact returns_pure _
  | some corrAge =>
    exact returns_ite (returns_raise _ _ _) (returns_ite (returns_clear _ _) (returns_pure _))

namespace Showing

theorem onStateHardware (h : Showing now v e) (hw : Hardware) :
    Showing now
      (Function.update v .jamming
        ((v .jamming).take jammingSustainS now (Debounced.jammingVerdict hw)))
      (leftBy (AlertEngine.onStateHardware hw) e) := by
  have hside := aside_showing now (Function.update v .jamming
    ((v .jamming).take jammingSustainS now (Debounced.jammingVerdict hw)))
  rw [AlertEngine.onStateHardware, (returns_onJamming hw).leftBy_bind h.quiet]
  cases antennaFaultStates hw.antStatus with
  | none => exact hside.clear rfl _ _ (h.onJamming hw)
  | some fault => exact hside.raise rfl _ _ _ (h.onJamming hw)

theorem onStateRtk (h : Showing now v e) (rtk : RtkStatus) :
    Showing now
      (Function.update v .rtkLost
        ((v .rtkLost).take rtkLostGraceS now (Debounced.rtkVerdict rtk)))
      (leftBy (AlertEngine.onStateRtk rtk) e) := by
  have hage := (aside_showing now v).onCorrAge rtk e h
  rw [AlertEngine.onStateRtk, (returns_onCorrAge rtk).leftBy_bind h.quiet]
  exact hage.onCarrSoln rtk

theorem onSystemStats (h : Showing now v e) (stats : SystemStats) :
    Showing now (fun r => r.takeOf (v r) (now, .systemStats stats))
      (leftBy (AlertEngine.onSystemStats stats) e) := by
  have hdisk := (aside_showing now v).onDiskFree stats.diskFreeGb e h
  rw [AlertEngine.onSystemStats, (returns_onDiskFree stats.diskFreeGb).leftBy_bind h.quiet]
  cases htemp : stats.tempC with
  | none =>
    refine hdisk.congr fun r => ?_
    cases r <;> simp [Debounced.takeOf, Debounced.verdict, htemp]
  | some tempC =>
    refine (hdisk.temperature tempC).congr fun r => ?_
    cases r <;> simp [Debounced.takeOf, Debounced.verdict, Debounced.grace, htemp]

/-- A message is taken by the debouncers it is a sample for, and nothing for the others. -/
theorem consume [PyUnicode] (h : Showing now v e) (m : ℚ × AlertMessage) :
    Showing m.1 (fun r => r.takeOf (v r) m) (e.consume m) := by
  obtain ⟨now', message⟩ := m
  have hnow : Showing now' v { e with now := now' } := by
    refine ⟨h.quiet, rfl, fun r => ?_⟩
    rw [← h.shows r]
    cases r <;> rfl
  by_cases hsample : message.isSample = false
  · have hnone : (fun r : Debounced => r.takeOf (v r) (now', message)) = v := by
      funext r
      simp [Debounced.takeOf, Debounced.verdict_of_not_isSample hsample]
    rw [hnone]
    exact (aside_showing now' v).handle message hsample _ hnow
  cases message with
  | stateFix fix => exact (hnow.onStateFix fix).congr fun r => by cases r <;> rfl
  | stateHardware hw => exact (hnow.onStateHardware hw).congr fun r => by cases r <;> rfl
  | systemStats stats => exact hnow.onSystemStats stats
  | stateRtk rtk => exact (hnow.onStateRtk rtk).congr fun r => by cases r <;> rfl
  | _ => exact absurd rfl hsample

end Showing

theorem showing_fresh (minFreeGb : ℚ) :
    Showing 0 (fun r => { armed := r.began }) (fresh (fun _ => .stored) minFreeGb) where
  quiet := ⟨rfl, fun _ => rfl⟩
  clock := rfl
  shows r := by cases r <;> rfl

/-- After any messages each rule is the debouncer after the samples among them. -/
theorem showing_consumed [PyUnicode] (minFreeGb : ℚ) (ms : List (ℚ × AlertMessage)) :
    ∃ now, Showing now
      (fun r => ({ armed := r.began } : Debouncer ℚ).takes r.grace (r.samples ms))
      (consumed (fresh (fun _ => .stored) minFreeGb) ms) := by
  induction ms using List.reverseRecOn with
  | nil => exact ⟨0, showing_fresh minFreeGb⟩
  | append_singleton ms m ih =>
    obtain ⟨now, hms⟩ := ih
    refine ⟨m.1, ?_⟩
    rw [consumed, List.foldl_append]
    refine (hms.consume m).congr fun r => ?_
    cases hr : r.verdict m.2 <;>
      simp [Debounced.samples, Debounced.takeOf, Debouncer.takes, hr]

end AlertEngine

theorem Debounced.pairwise_samples (r : Debounced) {ms : List (ℚ × AlertMessage)}
    (hclock : ms.Pairwise fun m n => m.1 ≤ n.1) :
    (r.samples ms).Pairwise fun x y => x.1 ≤ y.1 := by
  refine List.pairwise_filterMap.2 (hclock.imp fun {m n} hmn x hx y hy => ?_)
  obtain ⟨_, -, rfl⟩ := Option.map_eq_some_iff.1 hx
  obtain ⟨_, -, rfl⟩ := Option.map_eq_some_iff.1 hy
  exact hmn

/-- **The events of a debounced condition are told by its samples.** While the clock never goes
back and no write fails, a message raises the condition if and only if it is a bad sample of it,
the condition is not active, and every sample of it from one at least the grace ago was bad, with
a good one before that where only a fix that was can be lost. It ends the condition if and only if
it is a good sample and the condition is active, and no other message does anything to it. -/
theorem debounced [PyUnicode] (minFreeGb : ℚ) (r : Debounced) (taken : List (ℚ × AlertMessage))
    (m : ℚ × AlertMessage) (hclock : (taken ++ [m]).Pairwise fun m n => m.1 ≤ n.1) :
    let e := AlertEngine.consumed (.fresh (fun _ => .stored) minFreeGb) taken
    Reports (Lasted r.began r.grace (r.samples taken) m.1) (r.verdict m.2)
      (e.active r.condition).isSome ((e.consume m).active r.condition).isSome
      (e.events.edges r.condition) ((e.consume m).events.edges r.condition) := by
  intro e
  obtain ⟨now, hshow⟩ := AlertEngine.showing_consumed minFreeGb taken
  have hpast : e.debouncer r =
      ({ armed := r.began } : Debouncer ℚ).takes r.grace (r.samples taken) := hshow.shows r
  have hnext : (e.consume m).debouncer r = r.takeOf (e.debouncer r) m :=
    ((hshow.consume m).shows r).trans (by rw [hpast])
  have htaken := r.pairwise_samples (List.pairwise_append.1 hclock).1
  have hreports : Reports (Lasted r.began r.grace (r.samples taken) m.1) (r.verdict m.2)
      (e.debouncer r).active (r.takeOf (e.debouncer r) m).active
      (e.debouncer r).edges (r.takeOf (e.debouncer r) m).edges := by
    rw [hpast]
    cases hr : r.verdict m.2 with
    | none => simpa [Debounced.takeOf, hr] using Reports.none
    | some verdict => simpa [Debounced.takeOf, hr] using Debouncer.takes_spec htaken verdict
  rwa [← hnext] at hreports

/-- A fix is there at 0, gone at 1, and still gone at 11 : it is lost. -/
theorem debounced_fix_lost :
    let e := @AlertEngine.consumed ⟨Char.isAlphanum⟩ (.fresh (fun _ => .stored) 5)
      [(0, .stateFix { fixType := 3 }), (1, .stateFix {})]
    (@AlertEngine.consume ⟨Char.isAlphanum⟩ e (11, .stateFix {})).events.edges .fixLost =
      e.events.edges .fixLost ++ [true] := by
  have hfrom : BadFrom false (Debounced.fixLost.samples
      [(0, .stateFix { fixType := 3 }), (1, .stateFix {})]) 1 :=
    ⟨[(0, .good)], [], by decide, by simp, .inr ⟨(0, .good), by simp, rfl⟩⟩
  have hreports := @debounced ⟨Char.isAlphanum⟩ 5 .fixLost
    [(0, .stateFix { fixType := 3 }), (1, .stateFix {})] (11, .stateFix {}) (by decide)
  have hlong : (1 : ℚ) ≤ 11 - fixLostGraceS := by decide +kernel
  exact hreports.raises.2 ⟨by decide, ⟨1, hlong, hfrom⟩, by decide⟩

end Mtrtk
