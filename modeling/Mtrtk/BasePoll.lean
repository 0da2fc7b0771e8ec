import Mtrtk.BaseVerify

/-!
# The poll of the active site

`poll_active_site` offers the receiver a row another process made active. A write it does not
need wears the flash of the receiver, or aborts a survey-in, every ten seconds.

`Turn` is a step of the manager between whose operations the lock is free, with the row
`_apply_mode` found active last (`activeSeen`) kept beside it. An operation is a run of its
coroutine to the end (`Co.Runs`), the receiver answering every write. `Polling` is a run of
polls and handlers alone, over which the active row does not change.

`Quiet` : the poll leaves the row alone. A poll leaves the manager so, whether the write is
accepted or refused (`runs_pollActiveSite`), and the handlers keep it.
-/

namespace Mtrtk

namespace BaseModeManager

/-! ## Turns -/

/-- A call and its answer. -/
abbrev Called := (q : BaseCall) × q.Reply

/-- The receiver acknowledges or refuses a write, and the active row is one of `rows`. The
other answers of the database are any. -/
def Answered (rows : Option Site → Prop) :
    (q : BaseCall) → q.Reply → BaseModeManager → BaseModeManager → Prop
  | .applyItems items, answer, m, m' => answer ≠ .timeout ∧ m' = m.answered items answer
  | .get _, _, m, m' => m' = m
  | .active, row, m, m' => rows row ∧ m' = m
  | .activate _, _, m, m' => m' = m

/-- What runs beside the operations : the handlers, and a configuration change that sets the
manager's settings before it asks for `apply_mode`. -/
inductive Outside [Pyrtcm] (m : BaseModeManager) : BaseModeManager → Prop
  | handler {m' : BaseModeManager} (h : Handler m m') : Outside m m'
  | configure (mode : BaseMode) (site : Option String) (minDurationS : ℤ) (accLimitM : ℚ) :
      Outside m
        { m with
          mode := mode
          activeSiteName := site
          svinMinDurationS := minDurationS
          svinAccLimitM := accLimitM }

/-- The row that was active last, as the calls tell it. -/
def activeSeen : List Called → Option (Option Site)
  | [] => none
  | ⟨.active, row⟩ :: l => (activeSeen l).or (some row)
  | ⟨.activate _, some site⟩ :: l => (activeSeen l).or (some (some site))
  | ⟨.get _, some site⟩ :: l =>
    (activeSeen l).or (if site.active then some (some site) else none)
  | _ :: l => activeSeen l

/-- The call writes TMODE. -/
def isWrite : Called → Bool
  | ⟨.applyItems _, _⟩ => true
  | _ => false

/-- How many TMODE writes were issued. -/
def writes (l : List Called) : ℕ := l.countP isWrite

section Turn

variable [Pyubx2] [Pyrtcm]

/-- A run of an operation, beside anything. -/
abbrev Performs (c : BaseM Unit) (m : BaseModeManager) (l : List Called) (m' : BaseModeManager) :
    Prop :=
  c.Runs Outside (Answered fun _ => True) m l () m'

/-- An operation, or what runs beside them. `restart_survey_in` may be called in any mode. -/
inductive Turn : BaseModeManager × Option (Option Site) → BaseModeManager × Option (Option Site) →
    Prop
  | applyMode {m m' l seen} (h : Performs applyMode m l m') :
      Turn (m, seen) (m', (activeSeen l).or seen)
  | restartSurveyIn {m m' l seen} (h : Performs (discard restartSurveyIn) m l m') :
      Turn (m, seen) (m', seen)
  | activateSite (name : String) {m m' l seen}
      (h : Performs (discard (activateSite name)) m l m') : Turn (m, seen) (m', seen)
  | pollActiveSite {m m' l seen} (h : Performs pollActiveSite m l m') : Turn (m, seen) (m', seen)
  | outside {m m' seen} (h : Outside m m') : Turn (m, seen) (m', seen)

/-- Polls and handlers alone, while the active row is the one of `row`, or there is none :
the calls they make. -/
inductive Polling (row : Option SiteIdent) :
    BaseModeManager → List Called → BaseModeManager → Prop
  | done (m : BaseModeManager) : Polling row m [] m
  | poll {m m₁ m' l l'}
      (h : pollActiveSite.Runs Handler (Answered fun r => r.map Site.ident = row) m l () m₁)
      (hrest : Polling row m₁ l' m') : Polling row m (l ++ l') m'
  | handle {m m₁ m' l} (h : Handler m m₁) (hrest : Polling row m₁ l m') : Polling row m l m'

end Turn

/-! ## Runs of the operations -/

/-- A later call tells of a later row. -/
theorem activeSeen_append : ∀ l l' : List Called,
    activeSeen (l ++ l') = (activeSeen l').or (activeSeen l)
  | [], l' => by simp [activeSeen]
  | ⟨.active, row⟩ :: l, l' => by
    simp only [List.cons_append, activeSeen, activeSeen_append l l', Option.or_assoc]
  | ⟨.activate _, some site⟩ :: l, l' => by
    simp only [List.cons_append, activeSeen, activeSeen_append l l', Option.or_assoc]
  | ⟨.activate _, none⟩ :: l, l' => activeSeen_append l l'
  | ⟨.get _, some site⟩ :: l, l' => by
    simp only [List.cons_append, activeSeen, activeSeen_append l l', Option.or_assoc]
  | ⟨.get _, none⟩ :: l, l' => activeSeen_append l l'
  | ⟨.applyItems _, _⟩ :: l, l' => activeSeen_append l l'

section Runs

variable {env : BaseModeManager → BaseModeManager → Prop} {rows : Option Site → Prop}
  {m m' : BaseModeManager} {l : List Called}

theorem runs_applyItems {items : CfgItems} {answer : Answer}
    (h : (applyItems items).Runs env (Answered rows) m l answer m') :
    l = [⟨.applyItems items, answer⟩] ∧ answer ≠ .timeout ∧
      ∃ u, Relation.ReflTransGen env m u ∧ m' = u.answered items answer := by
  obtain ⟨rfl, u, hu, hne, rfl⟩ := Co.runs_ask.1 h
  exact ⟨rfl, hne, u, hu, rfl⟩

/-- A write without a position, and its announcement. -/
theorem runs_applyTmode {items : CfgItems} {reason : Option String} {b : Bool}
    (h : (applyTmode items reason).Runs env (Answered rows) m l b m') :
    ∃ answer u reason', l = [⟨.applyItems items, answer⟩] ∧
      Relation.ReflTransGen env m.clearVerification u ∧
      m' = (u.answered items answer).announce none reason' := by
  simp only [applyTmode, Co.runs_bind, Co.runs_modify] at h
  obtain ⟨l₁, l₂, -, u, ⟨rfl, rfl⟩, ⟨l₃, l₄, answer, v, hask, hrest, rfl⟩, rfl⟩ := h
  obtain ⟨rfl, hne, u, hu, rfl⟩ := runs_applyItems hask
  cases answer with
  | timeout => exact absurd rfl hne
  | ack =>
    simp only [Co.runs_bind, Co.runs_modify, Co.runs_pure] at hrest
    obtain ⟨l₁, l₂, -, w, ⟨rfl, rfl⟩, ⟨rfl, rfl, rfl⟩, rfl⟩ := hrest
    exact ⟨.ack, u, _, rfl, hu, rfl⟩
  | nak =>
    simp only [Co.runs_bind, Co.runs_modify, Co.runs_pure] at hrest
    obtain ⟨l₁, l₂, -, w, ⟨rfl, rfl⟩, ⟨rfl, rfl, rfl⟩, rfl⟩ := hrest
    exact ⟨.nak, u, _, rfl, hu, rfl⟩

/-- A write of a site : it is taken, or the refusal is remembered. -/
theorem runs_applyFixed [Pyubx2] {site : Site} {b : Bool}
    (h : (applyFixed site).Runs env (Answered rows) m l b m') :
    ∃ answer u, l = [⟨.applyItems site.fixedItems, answer⟩] ∧ Relation.ReflTransGen env m u ∧
      (m' = ((u.answered site.fixedItems .ack).sitOn site).announce (some site.name) ∨
        m' = { u with nakSite := some site.ident }.announce (some site.name) (some nakReason)) := by
  simp only [applyFixed, Co.runs_bind] at h
  obtain ⟨l₁, l₂, answer, v, hask, hrest, rfl⟩ := h
  obtain ⟨rfl, hne, u, hu, rfl⟩ := runs_applyItems hask
  cases answer with
  | timeout => exact absurd rfl hne
  | ack =>
    simp only [Co.runs_bind, Co.runs_modify, Co.runs_pure] at hrest
    obtain ⟨l₁, l₂, -, w, ⟨rfl, rfl⟩, ⟨rfl, rfl, rfl⟩, rfl⟩ := hrest
    exact ⟨.ack, u, rfl, hu, .inl rfl⟩
  | nak =>
    simp only [Co.runs_bind, Co.runs_modify, Co.runs_pure] at hrest
    obtain ⟨l₁, l₂, -, w, ⟨rfl, rfl⟩, ⟨rfl, rfl, rfl⟩, rfl⟩ := hrest
    exact ⟨.nak, u, rfl, hu, .inr rfl⟩

theorem runs_sitesActive {row : Option Site}
    (h : sitesActive.Runs env (Answered rows) m l row m') :
    l = [⟨.active, row⟩] ∧ rows row ∧ Relation.ReflTransGen env m m' := by
  obtain ⟨rfl, u, hu, hrow, rfl⟩ := Co.runs_ask.1 h
  exact ⟨rfl, hrow, hu⟩

theorem runs_sitesGet {name : String} {row : Option Site}
    (h : (sitesGet name).Runs env (Answered rows) m l row m') :
    l = [⟨.get name, row⟩] ∧ Relation.ReflTransGen env m m' := by
  obtain ⟨rfl, u, hu, rfl⟩ := Co.runs_ask.1 h
  exact ⟨rfl, hu⟩

theorem runs_sitesActivate {name : String} {row : Option Site}
    (h : (sitesActivate name).Runs env (Answered rows) m l row m') :
    l = [⟨.activate name, row⟩] ∧ Relation.ReflTransGen env m m' := by
  obtain ⟨rfl, u, hu, rfl⟩ := Co.runs_ask.1 h
  exact ⟨rfl, hu⟩

/-- The site that resolves is the row that is active then. -/
theorem runs_resolveSite {r : Except KeyError (Option Site)}
    (h : resolveSite.Runs env (Answered rows) m l r m') :
    Relation.ReflTransGen env m m' ∧
      activeSeen l = match r with
        | .ok site => some site
        | .error _ => none := by
  simp only [resolveSite, Co.runs_bind, Co.runs_get] at h
  obtain ⟨l₁, l₂, m₀, u, ⟨rfl, rfl, rfl⟩, hrest, rfl⟩ := h
  cases hname : truthy u.activeSiteName with
  | none =>
    simp only [hname, Co.runs_bind, Co.runs_pure] at hrest
    obtain ⟨l₁, l₂, row, v, hact, ⟨rfl, rfl, rfl⟩, rfl⟩ := hrest
    obtain ⟨rfl, -, hv⟩ := runs_sitesActive hact
    exact ⟨hv, rfl⟩
  | some name =>
    simp only [hname, Co.runs_bind] at hrest
    obtain ⟨l₁, l₂, named, v, hget, hrest, rfl⟩ := hrest
    obtain ⟨rfl, hv⟩ := runs_sitesGet hget
    cases named with
    | none =>
      simp only [Co.runs_bind, Co.runs_pure] at hrest
      obtain ⟨l₁, l₂, row, w, hact, ⟨rfl, rfl, rfl⟩, rfl⟩ := hrest
      obtain ⟨rfl, -, hw⟩ := runs_sitesActive hact
      exact ⟨hv.trans hw, rfl⟩
    | some site =>
      simp only at hrest
      split_ifs at hrest with hactive
      · obtain ⟨rfl, rfl, rfl⟩ := Co.runs_pure.1 hrest
        exact ⟨hv, by simp [activeSeen, hactive]⟩
      · simp only [Co.runs_bind] at hrest
        obtain ⟨l₁, l₂, row, w, hact, hrest, rfl⟩ := hrest
        obtain ⟨rfl, hw⟩ := runs_sitesActivate hact
        cases row with
        | none =>
          obtain ⟨rfl, rfl, rfl⟩ := Co.runs_pure.1 hrest
          exact ⟨hv.trans hw, by simp [activeSeen, hactive]⟩
        | some site' =>
          obtain ⟨rfl, rfl, rfl⟩ := Co.runs_pure.1 hrest
          exact ⟨hv.trans hw, by simp [activeSeen]⟩

end Runs

/-! ## What the poll compares with -/

/-- What `_poll_active_site` looks at. -/
def pollState (m : BaseModeManager) :
    BaseMode × Option Site × Option SiteIdent × Option SiteIdent :=
  (m.mode, m.appliedSite, m.nakSite, m.pollBaseline)

/-- The poll leaves the row alone. -/
def Quiet (row : Option SiteIdent) (m : BaseModeManager) : Prop :=
  ∀ site : Site, row = some site.ident → m.ignores site = true

variable {m m' : BaseModeManager} {row : Option SiteIdent} {l : List Called}

theorem ignores_of_pollState (h : m'.pollState = m.pollState) (site : Site) :
    m'.ignores site = m.ignores site := by
  simp only [pollState, Prod.mk.injEq] at h
  obtain ⟨hmode, happlied, hnak, hbase⟩ := h
  rw [ignores, ignores, hmode, happlied, hnak, hbase]

theorem Quiet.of_pollState (h : m.Quiet row) (heq : m'.pollState = m.pollState) : m'.Quiet row :=
  fun site hsite => (ignores_of_pollState heq site).trans (h site hsite)

section Handlers

variable [Pyrtcm]

theorem pollState_handler (h : Handler m m') : m'.pollState = m.pollState := by
  rcases h with ⟨frame⟩ | ⟨fixType⟩ | ⟨t, -⟩
  · unfold on1005 compareSite
    repeat' split
    all_goals rfl
  · unfold onFix
    repeat' split
    all_goals rfl
  · rfl

theorem pollState_handlers (h : Relation.ReflTransGen Handler m m') :
    m'.pollState = m.pollState := by
  induction h with
  | refl => rfl
  | tail _ hstep ih => exact (pollState_handler hstep).trans ih

theorem baseline_outside (h : Relation.ReflTransGen Outside m m') :
    m'.pollBaseline = m.pollBaseline := by
  induction h with
  | refl => rfl
  | tail _ hstep ih =>
    rcases hstep with ⟨hh⟩ | _
    · exact (congrArg (·.2.2.2) (pollState_handler hh)).trans ih
    · exact ih

end Handlers

@[simp] theorem baseline_announce (m : BaseModeManager) (site reason : Option String) :
    (m.announce site reason).pollBaseline = m.pollBaseline := rfl

@[simp] theorem baseline_answered (m : BaseModeManager) (items : CfgItems) (answer : Answer) :
    (m.answered items answer).pollBaseline = m.pollBaseline := by
  unfold answered
  split <;> rfl

/-- A site that was taken is left alone. -/
theorem ignores_sitOn (m : BaseModeManager) {site other : Site} (h : other.ident = site.ident) :
    (m.sitOn site).ignores other = true := by
  simp [ignores, sitOn, h]

/-- A site that was refused is left alone. -/
theorem ignores_nakSite (m : BaseModeManager) {site other : Site} (h : other.ident = site.ident) :
    { m with nakSite := some site.ident }.ignores other = true := by
  simp [ignores, h]

/-! ## The baseline -/

section Operations

variable [Pyrtcm]

theorem baseline_applyTmode {items : CfgItems} {reason : Option String} {b : Bool}
    (h : (applyTmode items reason).Runs Outside (Answered fun _ => True) m l b m') :
    m'.pollBaseline = m.pollBaseline ∧ activeSeen l = none := by
  obtain ⟨answer, u, reason', rfl, hu, rfl⟩ := runs_applyTmode h
  have hbase := baseline_outside hu
  exact ⟨(baseline_answered u items answer).trans hbase, rfl⟩

theorem baseline_restartSurveyIn (h : Performs (discard restartSurveyIn) m l m') :
    m'.pollBaseline = m.pollBaseline := by
  obtain ⟨r, h⟩ := Co.runs_discard.1 h
  simp only [restartSurveyIn, Co.runs_bind, Co.runs_modify] at h
  obtain ⟨_, _, -, u, ⟨rfl, rfl⟩, ⟨_, _, stopped, v, hstop, hrest, rfl⟩, rfl⟩ := h
  have hv := (baseline_applyTmode hstop).1
  split_ifs at hrest
  · simp only [Co.runs_bind, Co.runs_modify, Co.runs_pure] at hrest
    obtain ⟨_, _, -, w, ⟨rfl, rfl⟩, ⟨rfl, rfl, rfl⟩, rfl⟩ := hrest
    exact hv
  · simp only [Co.runs_bind, Co.runs_modify, Co.runs_get] at hrest
    obtain ⟨_, _, -, w, ⟨rfl, rfl⟩, ⟨_, _, _, x, ⟨rfl, rfl, rfl⟩, hrest, rfl⟩, rfl⟩ := hrest
    obtain ⟨_, _, started, y, hsurvey, hrest, rfl⟩ := hrest
    have hy := (baseline_applyTmode hsurvey).1
    split_ifs at hrest
    · simp only [Co.runs_bind, Co.runs_modify, Co.runs_pure] at hrest
      obtain ⟨_, _, -, z, ⟨rfl, rfl⟩, ⟨rfl, rfl, rfl⟩, rfl⟩ := hrest
      exact hy.trans hv
    · obtain ⟨rfl, rfl, rfl⟩ := Co.runs_pure.1 hrest
      exact hy.trans hv

variable [Pyubx2]

theorem baseline_applyFixed {site : Site} {b : Bool}
    (h : (applyFixed site).Runs Outside (Answered fun _ => True) m l b m') :
    m'.pollBaseline = m.pollBaseline ∧ activeSeen l = none := by
  obtain ⟨answer, u, rfl, hu, rfl | rfl⟩ := runs_applyFixed h
  · exact ⟨(baseline_answered u site.fixedItems .ack).trans (baseline_outside hu), rfl⟩
  · have hbase := baseline_outside hu
    exact ⟨hbase, rfl⟩

theorem baseline_activateSite {name : String} (h : Performs (discard (activateSite name)) m l m') :
    m'.pollBaseline = m.pollBaseline := by
  obtain ⟨r, h⟩ := Co.runs_discard.1 h
  simp only [activateSite, Co.runs_bind] at h
  obtain ⟨_, _, site, u, hact, hrest, rfl⟩ := h
  have hu := baseline_outside (runs_sitesActivate hact).2
  cases site with
  | none =>
    obtain ⟨rfl, rfl, rfl⟩ := Co.runs_pure.1 hrest
    exact hu
  | some site =>
    simp only [Co.runs_bind, Co.runs_discard, Co.runs_pure] at hrest
    obtain ⟨_, _, -, v, ⟨b, hfixed⟩, ⟨rfl, rfl, rfl⟩, rfl⟩ := hrest
    exact (baseline_applyFixed hfixed).1.trans hu

theorem baseline_pollActiveSite (h : Performs pollActiveSite m l m') :
    m'.pollBaseline = m.pollBaseline := by
  simp only [pollActiveSite, Co.runs_bind] at h
  obtain ⟨_, _, site, u, hact, hrest, rfl⟩ := h
  have hu := baseline_outside (runs_sitesActive hact).2.2
  cases site with
  | none =>
    obtain ⟨rfl, -, rfl⟩ := Co.runs_pure.1 hrest
    exact hu
  | some site =>
    simp only [Co.runs_bind, Co.runs_get] at hrest
    obtain ⟨_, _, v, w, ⟨rfl, rfl, rfl⟩, hrest, rfl⟩ := hrest
    split_ifs at hrest
    · obtain ⟨b, hfixed⟩ := Co.runs_discard.1 hrest
      exact (baseline_applyFixed hfixed).1.trans hu
    · obtain ⟨rfl, -, rfl⟩ := Co.runs_pure.1 hrest
      exact hu

/-- `apply_mode` makes the row it finds active the baseline. -/
theorem baseline_applyMode (h : Performs applyMode m l m') :
    (activeSeen l = none ∧ m'.pollBaseline = m.pollBaseline) ∨
      ∃ row, activeSeen l = some row ∧ m'.pollBaseline = row.map Site.ident := by
  simp only [applyMode, Co.runs_bind, Co.runs_modify, Co.runs_get] at h
  obtain ⟨_, _, -, u, ⟨rfl, rfl⟩, ⟨_, _, v, w, ⟨rfl, rfl, rfl⟩, hrest, rfl⟩, rfl⟩ := h
  cases hmode : m.mode
  case fixed =>
    simp only [hmode, Co.runs_bind] at hrest
    obtain ⟨_, l, r, v, hres, hrest, rfl⟩ := hrest
    obtain ⟨hv, hseen⟩ := runs_resolveSite hres
    have hbase := baseline_outside hv
    cases r with
    | error name =>
      obtain ⟨rfl, -, rfl⟩ := Co.runs_pure.1 hrest
      exact .inl ⟨by simpa using hseen, hbase⟩
    | ok site =>
      simp only [Co.runs_bind, Co.runs_modify] at hrest
      obtain ⟨_, _, -, w, ⟨rfl, rfl⟩, hrest, rfl⟩ := hrest
      cases site with
      | none =>
        simp only [Co.runs_bind, Co.runs_modify, Co.runs_get] at hrest
        obtain ⟨_, _, -, x, ⟨rfl, rfl⟩, ⟨_, _, _, y, ⟨rfl, rfl, rfl⟩, hrest, rfl⟩, rfl⟩ := hrest
        obtain ⟨b, hsvin⟩ := Co.runs_discard.1 hrest
        obtain ⟨hx, hnone⟩ := baseline_applyTmode hsvin
        exact .inr ⟨none, by simp [activeSeen_append, hseen, hnone], hx⟩
      | some site =>
        obtain ⟨b, hfixed⟩ := Co.runs_discard.1 hrest
        obtain ⟨hx, hnone⟩ := baseline_applyFixed hfixed
        exact .inr ⟨some site, by simp [activeSeen_append, hseen, hnone], hx⟩
  -- The two modes without a position, which may have been swapped by the time it writes.
  all_goals
    simp only [hmode, Co.runs_bind, Co.runs_modify, Co.runs_get] at hrest
    obtain ⟨_, _, row, u, hact, ⟨_, _, -, v, ⟨rfl, rfl⟩, hrest, rfl⟩, rfl⟩ := hrest
    obtain ⟨rfl, -, -⟩ := runs_sitesActive hact
    obtain ⟨_, _, _, w, ⟨rfl, rfl, rfl⟩, hrest, rfl⟩ := hrest
    refine .inr ⟨row, ?_⟩
    split at hrest
    · obtain ⟨b, hoff⟩ := Co.runs_discard.1 hrest
      obtain ⟨hw, hnone⟩ := baseline_applyTmode hoff
      exact ⟨by simp [activeSeen, hnone], hw⟩
    · simp only [Co.runs_bind, Co.runs_get] at hrest
      obtain ⟨_, _, _, x, ⟨rfl, rfl, rfl⟩, hrest, rfl⟩ := hrest
      obtain ⟨b, hsvin⟩ := Co.runs_discard.1 hrest
      obtain ⟨hw, hnone⟩ := baseline_applyTmode hsvin
      exact ⟨by simp [activeSeen, hnone], hw⟩

/-- What `apply_mode` saw last is the baseline. -/
theorem Turn.baseline {s s' : BaseModeManager × Option (Option Site)} (h : Turn s s')
    (hinv : ∀ r, s.2 = some r → s.1.pollBaseline = r.map Site.ident) :
    ∀ r, s'.2 = some r → s'.1.pollBaseline = r.map Site.ident := by
  cases h with
  | applyMode h =>
    intro r hr
    rcases baseline_applyMode h with ⟨hnone, hbase⟩ | ⟨row, hsome, hbase⟩
    · exact hbase.trans (hinv r (by simpa [hnone] using hr))
    · obtain rfl : row = r := by simpa [hsome] using hr
      exact hbase
  | restartSurveyIn h => exact fun r hr => (baseline_restartSurveyIn h).trans (hinv r hr)
  | activateSite name h => exact fun r hr => (baseline_activateSite h).trans (hinv r hr)
  | pollActiveSite h => exact fun r hr => (baseline_pollActiveSite h).trans (hinv r hr)
  | outside h => exact fun r hr => (baseline_outside (.single h)).trans (hinv r hr)

/-! ## Polls -/

/-- A poll writes once at most, not at all where the row is left alone, and leaves it alone
afterwards. -/
theorem runs_pollActiveSite
    (h : pollActiveSite.Runs Handler (Answered fun r => r.map Site.ident = row) m l () m') :
    writes l ≤ 1 ∧ (m.Quiet row → writes l = 0) ∧ m'.Quiet row := by
  simp only [pollActiveSite, Co.runs_bind] at h
  obtain ⟨l₁, l₂, active, u, hact, hrest, rfl⟩ := h
  obtain ⟨rfl, hrow, hu⟩ := runs_sitesActive hact
  have hstate := pollState_handlers hu
  cases active with
  | none =>
    obtain ⟨rfl, -, rfl⟩ := Co.runs_pure.1 hrest
    refine ⟨by decide, fun _ => rfl, fun site hsite => ?_⟩
    exact absurd (hrow.trans hsite) (by simp)
  | some site =>
    simp only [Co.runs_bind, Co.runs_get] at hrest
    obtain ⟨_, _, _, v, ⟨rfl, rfl, rfl⟩, hrest, rfl⟩ := hrest
    have hident : ∀ other : Site, row = some other.ident → other.ident = site.ident :=
      fun other ho => Option.some.inj (ho.symm.trans hrow.symm)
    by_cases hig : v.ignores site = true
    · rw [hig] at hrest
      obtain ⟨rfl, -, rfl⟩ := Co.runs_pure.1 hrest
      refine ⟨Nat.zero_le _, fun _ => rfl, fun other ho => ?_⟩
      rw [ignores, hident other ho]
      exact hig
    · simp only [hig, Bool.not_false, if_true, Co.runs_discard] at hrest
      obtain ⟨b, hrest⟩ := hrest
      obtain ⟨answer, x, rfl, -, hx⟩ := runs_applyFixed hrest
      have hquiet : ¬m.Quiet row := fun hq =>
        hig ((ignores_of_pollState hstate site).trans (hq site hrow.symm))
      refine ⟨le_rfl, fun hq => absurd hq hquiet, fun other ho => ?_⟩
      rcases hx with rfl | rfl
      · exact ignores_sitOn _ (hident other ho)
      · exact ignores_nakSite _ (hident other ho)

/-- Polls write once at most, and not at all where the row is left alone at first. -/
theorem Polling.writes_le (h : Polling row m l m') :
    writes l ≤ 1 ∧ (m.Quiet row → writes l = 0) := by
  induction h with
  | done m => exact ⟨by decide, fun _ => rfl⟩
  | poll h _ ih =>
    obtain ⟨hle, hzero, hquiet⟩ := runs_pollActiveSite h
    have hrest := ih.2 hquiet
    simp only [writes, List.countP_append] at hle hzero hrest ⊢
    exact ⟨by omega, fun hq => by rw [hzero hq, hrest]⟩
  | handle h _ ih => exact ⟨ih.1, fun hq => ih.2 (hq.of_pollState (pollState_handler h))⟩

/-! ## Polling settles -/

/-- From any state a manager reaches, polls and handlers write TMODE at most once while the
active row does not change ; and not at all in a mode other than fixed when the active row
is the one `apply_mode` found last, whatever has set the mode since. -/
theorem polling_settles {mode : BaseMode} {minDurationS : ℤ} {accLimitM clock : ℚ}
    {activeSiteName : Option String} {m m' : BaseModeManager} {seen : Option (Option Site)}
    {row : Option SiteIdent} {l : List Called}
    (h : Relation.ReflTransGen Turn (init mode minDurationS accLimitM activeSiteName clock, none)
      (m, seen)) (hpoll : Polling row m l m') :
    writes l ≤ 1 ∧
      (m.mode ≠ .fixed → ∀ r, seen = some r → r.map Site.ident = row → writes l = 0) := by
  have hinv : ∀ s, Relation.ReflTransGen Turn
      (init mode minDurationS accLimitM activeSiteName clock, none) s →
        ∀ r, s.2 = some r → s.1.pollBaseline = r.map Site.ident := by
    intro s hs
    induction hs with
    | refl => exact fun r hr => absurd hr (by simp)
    | tail _ hstep ih => exact hstep.baseline ih
  obtain ⟨hle, hzero⟩ := hpoll.writes_le
  refine ⟨hle, fun hmode r hr hrow => hzero fun site hsite => ?_⟩
  have hbase : m.pollBaseline = some site.ident :=
    (hinv _ h r hr).trans (hrow.trans hsite)
  simp [ignores, hmode, hbase]

end Operations

/-- A base that was put into survey-in while `roof` was the active row. -/
def roofSurveyed : BaseModeManager :=
  { init .surveyIn 300 2 none 0 with
    pollBaseline := some roof.ident
    accepted := some (tmodeSurveyIn 300 2) }.announce none

theorem polling_settles_roof :
    writes [⟨.active, some roof⟩] ≤ 1 ∧ writes [⟨.active, some roof⟩] = 0 := by
  let _ := sphp
  let _ := rtcm1005
  have hmode : Performs applyMode (init .surveyIn 300 2 none 0)
      [⟨.active, some roof⟩, ⟨.applyItems (tmodeSurveyIn 300 2), Answer.ack⟩] roofSurveyed := by
    refine .get (.set (.get (.call .refl ⟨trivial, rfl⟩ ?_)))
    refine .get (.set (.get (.get (.get (.set (.call .refl ⟨nofun, rfl⟩ ?_))))))
    exact .get (.set (.ret _ _))
  have hpoll : pollActiveSite.Runs Handler (Answered fun r => r.map Site.ident = some roof.ident)
      roofSurveyed [⟨.active, some roof⟩] () roofSurveyed := by
    have hign : roofSurveyed.ignores roof = true := by decide +kernel
    refine .call .refl ⟨rfl, rfl⟩ (.get ?_)
    change Co.Runs _ _ (ite _ _ _) _ _ _ _
    rw [if_neg (by simp [hign])]
    exact .ret _ _
  have h := polling_settles (.single (.applyMode hmode)) (.poll hpoll (.done _))
  exact ⟨h.1, h.2 (by decide) (some roof) rfl rfl⟩

end BaseModeManager

end Mtrtk
