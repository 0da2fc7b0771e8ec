import Mtrtk.Daemon

/-!
# Reconnects of a fixed base

A base that is fixed on the active site (`Daemon.FixedOn`) is configured again by
`apply_mode` when its receiver reconnects. `_resolve_site` takes the name the manager was
configured with before the active row, and no activation tells the manager a new name.
`Daemon.stays_iff` : without an operator the base stays where it is exactly when the
configured name is none, finds no row, or is the name of the site
(`Daemon.ConfiguredFor`). Otherwise the first reconnect activates the configured site and
moves the base there (`Daemon.activated_then_reconnected`).
-/

namespace Mtrtk

/-- The row a configured name finds. -/
def named (sites : SitesTable) (name : Option String) : Option Site := (truthy name).bind sites.get

theorem resolveFixedSite_eq (sites : SitesTable) (name : Option String) :
    resolveFixedSite sites name = (named sites name).or sites.active := by
  unfold resolveFixedSite named
  cases truthy name <;> rfl

namespace BaseModeManager

/-! ## Operations with every write acknowledged -/

section Acks

variable (sites : SitesTable) (m : BaseModeManager)

theorem exec_applyFixed [Pyubx2] (site : Site) :
    (applyFixed site).exec World.reply ⟨sites, acks⟩ m =
      (true, ⟨sites, acks⟩,
        ((m.answered site.fixedItems .ack).sitOn site).announce (some site.name)) := rfl

variable {sites m}

@[simp] theorem exec_sitesGet (name : String) (w : World) :
    (sitesGet name).exec World.reply w m = (w.sites.get name, w, m) := rfl

@[simp] theorem exec_sitesActive (w : World) :
    sitesActive.exec World.reply w m = (w.sites.active, w, m) := rfl

@[simp] theorem exec_sitesActivate (name : String) (w : World) :
    (sitesActivate name).exec World.reply w m = ((w.activate name).1, (w.activate name).2, m) :=
  rfl

/-- A row that can be found can be activated. -/
theorem activate_of_get {name : String} {s : Site} (h : sites.get name = some s)
    (answers : ℕ → Answer) :
    ∃ s' sites', World.activate ⟨sites, answers⟩ name = (some s', ⟨sites', answers⟩) ∧
      s'.name = name ∧ sites'.active = some s' := by
  obtain ⟨s', hact, hname, hactive⟩ := SitesTable.active_of_activate h
  exact ⟨s', sites.activated name, by simp [World.activate, hact], hname, hactive⟩

/-- A row the configured name finds is active afterwards. -/
theorem exec_resolveSite_named {s : Site} (h : named sites m.activeSiteName = some s)
    (answers : ℕ → Answer) :
    ∃ s' sites', resolveSite.exec World.reply ⟨sites, answers⟩ m =
        (.ok (some s'), ⟨sites', answers⟩, m) ∧
      s'.name = s.name ∧ sites'.active = some s' ∧ (s.active → s' = s ∧ sites' = sites) := by
  obtain ⟨name, hname, hget⟩ := Option.bind_eq_some_iff.1 h
  simp only [resolveSite, Co.exec_bind, Co.exec_get, hname, exec_sitesGet, hget]
  split_ifs with hact
  · exact ⟨s, sites, rfl, rfl, SitesTable.active_of_get hget hact, fun _ => ⟨rfl, rfl⟩⟩
  · obtain ⟨s', sites', hexec, hs', hactive⟩ :=
      activate_of_get (SitesTable.get_of_name hget) answers
    simp only [Co.exec_bind, exec_sitesActivate, hexec]
    exact ⟨s', sites', rfl, hs', hactive, fun h' => absurd h' hact⟩

theorem exec_resolveSite_active (h : named sites m.activeSiteName = none) (answers : ℕ → Answer) :
    resolveSite.exec World.reply ⟨sites, answers⟩ m =
      (.ok sites.active, ⟨sites, answers⟩, m) := by
  unfold named at h
  simp only [resolveSite, Co.exec_bind, Co.exec_get]
  cases hname : truthy m.activeSiteName with
  | none => rfl
  | some name =>
    have hget : sites.get name = none := by simpa [hname] using h
    simp only [Co.exec_bind, exec_sitesGet, hget]
    rfl

/-- `_apply_mode` of a fixed base that a site resolves for. -/
theorem exec_applyMode_fixed [Pyubx2] (hm : m.mode = .fixed) {s : Site}
    (h : resolveFixedSite sites m.activeSiteName = some s) :
    ∃ s' sites' m', applyMode.exec World.reply ⟨sites, acks⟩ m = ((), ⟨sites', acks⟩, m') ∧
      m'.mode = .fixed ∧ m'.appliedSite = some s' ∧ m'.activeSiteName = m.activeSiteName ∧
      sites'.active = some s' ∧ s'.name = s.name ∧ (s.active → s' = s ∧ sites' = sites) := by
  obtain ⟨s', sites', hexec, hactive, hname, hs⟩ : ∃ s' sites',
      resolveSite.exec World.reply ⟨sites, acks⟩ { m with nakSite := none } =
        (.ok (some s'), ⟨sites', acks⟩, { m with nakSite := none }) ∧
      sites'.active = some s' ∧ s'.name = s.name ∧ (s.active → s' = s ∧ sites' = sites) := by
    rw [resolveFixedSite_eq] at h
    cases hn : named sites m.activeSiteName with
    | none =>
      have hactive : sites.active = some s := by simpa [hn] using h
      refine ⟨s, sites, ?_, hactive, rfl, fun _ => ⟨rfl, rfl⟩⟩
      rw [exec_resolveSite_active (m := { m with nakSite := none }) hn acks, hactive]
    | some r =>
      obtain rfl : r = s := by simpa [hn] using h
      obtain ⟨s', sites', hexec, hname, hactive, hs⟩ :=
        exec_resolveSite_named (m := { m with nakSite := none }) hn acks
      exact ⟨s', sites', hexec, hactive, hname, hs⟩
  rw [hm] at hexec
  simp only [applyMode, Co.exec_bind, Co.exec_modify, Co.exec_get, hm, hexec, Co.exec_discard,
    exec_applyFixed]
  exact ⟨s', sites', _, rfl, rfl, rfl, rfl, hactive, hname, hs⟩

end Acks

end BaseModeManager

namespace Daemon

/-- The base is fixed on the site, and the site is the active one. -/
structure FixedOn (d : Daemon) (site : Site) : Prop where
  mode : d.manager.mode = .fixed
  applied : d.manager.appliedSite = some site
  active : d.sites.active = some site

/-- The name the manager was configured with is none, finds no row, or is the site's. -/
def ConfiguredFor (d : Daemon) (site : Site) : Prop :=
  ∀ name, d.manager.activeSiteName = some name →
    name = "" ∨ d.sites.get name = none ∨ name = site.name

variable {d : Daemon} {site : Site}

theorem FixedOn.eq (h : d.FixedOn site) {site' : Site} (h' : d.FixedOn site') : site = site' :=
  Option.some.inj (h.applied.symm.trans h'.applied)

/-- The configured name resolves to a row of its name, or to the site where it fits that. -/
theorem FixedOn.resolves (h : d.FixedOn site) :
    (d.ConfiguredFor site ∧ resolveFixedSite d.sites d.manager.activeSiteName = some site) ∨
      (¬d.ConfiguredFor site ∧ ∃ r, resolveFixedSite d.sites d.manager.activeSiteName = some r ∧
        r.name ≠ site.name ∧ d.manager.activeSiteName = some r.name) := by
  rw [resolveFixedSite_eq]
  cases hn : named d.sites d.manager.activeSiteName with
  | none =>
    refine .inl ⟨fun name hname => ?_, by simpa using h.active⟩
    by_cases hempty : name = ""
    · exact .inl hempty
    · exact .inr (.inl (by simpa [named, truthy, hname, hempty] using hn))
  | some r =>
    obtain ⟨name, htruthy, hget⟩ := Option.bind_eq_some_iff.1 hn
    obtain ⟨hname, hne⟩ := Option.filter_eq_some_iff.1 htruthy
    obtain ⟨hr, rfl⟩ := d.sites.get_eq_some.1 hget
    by_cases hs : r.name = site.name
    · have hr' : r = site :=
        d.sites.eq_of_name_eq hr (d.sites.active_eq_some.1 h.active).1 hs
      refine .inl ⟨fun name hname' => .inr (.inr ?_), by simp [hr']⟩
      exact (Option.some.inj (hname'.symm.trans hname)).trans hs
    · refine .inr ⟨fun hc => ?_, r, rfl, hs, hname⟩
      rcases hc r.name hname with hempty | hnone | heq
      · simp [hempty] at hne
      · exact absurd (hget.symm.trans hnone) (Option.some_ne_none _)
      · exact hs heq

section Run

variable [Pyubx2]

/-- A reconnect of a fixed base that a site resolves for. -/
theorem reconnect_fixed {d : Daemon} (hm : d.manager.mode = .fixed) {s : Site}
    (h : resolveFixedSite d.sites d.manager.activeSiteName = some s) :
    ∃ s', (d.reconnect acks).FixedOn s' ∧ s'.name = s.name ∧
      (s.active → s' = s ∧ (d.reconnect acks).sites = d.sites) ∧
      (d.reconnect acks).manager.activeSiteName = d.manager.activeSiteName := by
  obtain ⟨s', sites', m', hexec, hmode, happ, hname, hactive, hs, hact⟩ :=
    BaseModeManager.exec_applyMode_fixed hm h
  refine ⟨s', ⟨?_, ?_, ?_⟩, hs, ?_, ?_⟩
  all_goals simpa [reconnect, perform, hexec]

/-- The poll has nothing to do on a base that is fixed on the active site. -/
theorem FixedOn.poll (h : d.FixedOn site) (answers : ℕ → Answer) : d.poll answers = d := by
  have hign : d.manager.ignores site = true := by
    simp [BaseModeManager.ignores, h.mode, h.applied]
  have hexec : BaseModeManager.pollActiveSite.exec World.reply ⟨d.sites, answers⟩ d.manager =
      ((), ⟨d.sites, answers⟩, d.manager) := by
    simp [BaseModeManager.pollActiveSite, h.active, hign]
  simp [Daemon.poll, perform, hexec]

/-- Where the name fits the site, a reconnect leaves the base on it. -/
theorem FixedOn.reconnect (h : d.FixedOn site) (hc : d.ConfiguredFor site) :
    (d.reconnect acks).FixedOn site ∧ (d.reconnect acks).ConfiguredFor site := by
  rcases h.resolves with ⟨-, hres⟩ | ⟨hno, -⟩
  · obtain ⟨s', hfixed, -, hact, hname⟩ := reconnect_fixed h.mode hres
    obtain ⟨rfl, hsites⟩ := hact (d.sites.active_eq_some.1 h.active).2
    refine ⟨hfixed, fun name hname' => ?_⟩
    rw [hsites]
    exact hc name (hname ▸ hname')
  · exact absurd hc hno

/-- Where it does not, a reconnect puts the base on another site, which the name fits. -/
theorem FixedOn.reconnect_moves (h : d.FixedOn site) (hc : ¬d.ConfiguredFor site) :
    ∃ site', site' ≠ site ∧ (d.reconnect acks).FixedOn site' ∧
      (d.reconnect acks).ConfiguredFor site' := by
  rcases h.resolves with ⟨hyes, -⟩ | ⟨-, r, hres, hne, hconf⟩
  · exact absurd hyes hc
  · obtain ⟨s', hfixed, hs', -, hname⟩ := reconnect_fixed h.mode hres
    refine ⟨s', fun heq => hne (hs' ▸ heq ▸ rfl), hfixed, fun name hname' => .inr (.inr ?_)⟩
    rw [hname, hconf] at hname'
    exact (Option.some.inj hname').symm.trans hs'.symm

variable [PyText]

/-- What happens with no operator : rounds of the poll, and reconnects, their writes
acknowledged. -/
def unattended (events : List Event) : Prop := ∀ e ∈ events, e = .poll ∨ e = .reconnect

theorem FixedOn.run_configured (h : d.FixedOn site) (hc : d.ConfiguredFor site)
    {events : List Event} (he : unattended events) :
    ∃ d', run step d (events.map (·, acks)) = some d' ∧ d'.FixedOn site := by
  induction events generalizing d with
  | nil => exact ⟨d, rfl, h⟩
  | cons e events ih =>
    obtain ⟨rfl | rfl, he'⟩ := List.forall_mem_cons.1 he
    · obtain ⟨d', hrun, hd'⟩ := ih h hc he'
      exact ⟨d', by simpa [run, step, next, h.poll] using hrun, hd'⟩
    · obtain ⟨hfixed, hconf⟩ := h.reconnect hc
      obtain ⟨d', hrun, hd'⟩ := ih hfixed hconf he'
      exact ⟨d', by simpa [run, step, next] using hrun, hd'⟩

theorem FixedOn.run_moves (h : d.FixedOn site) (hc : ¬d.ConfiguredFor site)
    {events : List Event} (he : unattended events) (hr : Event.reconnect ∈ events) :
    ∃ d', run step d (events.map (·, acks)) = some d' ∧ ¬d'.FixedOn site := by
  induction events with
  | nil => exact absurd hr List.not_mem_nil
  | cons e events ih =>
    obtain ⟨rfl | rfl, he'⟩ := List.forall_mem_cons.1 he
    · obtain ⟨d', hrun, hd'⟩ := ih he' (by simpa using hr)
      exact ⟨d', by simpa [run, step, next, h.poll] using hrun, hd'⟩
    · obtain ⟨site', hne, hfixed, hconf⟩ := h.reconnect_moves hc
      obtain ⟨d', hrun, hd'⟩ := hfixed.run_configured hconf he'
      exact ⟨d', by simpa [run, step, next] using hrun, fun h' => hne (hd'.eq h')⟩

/-- Left to itself, a base that is fixed on the active site is still so after any reconnects
exactly when the configured name fits the site. -/
theorem stays_iff (h : d.FixedOn site) {events : List Event} (he : unattended events)
    (hr : Event.reconnect ∈ events) :
    ∃ d', run step d (events.map (·, acks)) = some d' ∧
      (d'.FixedOn site ↔ d.ConfiguredFor site) := by
  by_cases hc : d.ConfiguredFor site
  · obtain ⟨d', hrun, hd'⟩ := h.run_configured hc he
    exact ⟨d', hrun, iff_of_true hd' hc⟩
  · obtain ⟨d', hrun, hd'⟩ := h.run_moves hc he hr
    exact ⟨d', hrun, iff_of_false hd' hc⟩

end Run

/-! ## Two sites -/

open BaseModeManager (roof sphp)

/-- The texts of integral floats, and of strings without quotes. -/
@[reducible] def plainText : PyText where
  str q := toString q.num ++ ".0"
  repr s := "'" ++ s ++ "'"

def mast : Site where
  id := some 2
  name := "mast"
  x := 3980200
  y := 123500
  z := 4966700

/-- `roof` is active, `mast` is not. -/
def twoSites : SitesTable where
  rows := [roof, mast]
  nextId := 3
  names := by decide
  single := by decide

/-- A daemon that is to be fixed on `roof`. -/
def roofDaemon : Daemon :=
  .start { baseMode := .fixed, activeSite := some "roof" } (fun _ => none) twoSites

/-- Connected. -/
def roofConnected : Daemon :=
  let _ := sphp
  roofDaemon.reconnect acks

theorem stays_iff_roof :
    let _ := sphp
    let _ := plainText
    ∃ d', run step roofConnected [(.poll, acks), (.reconnect, acks)] = some d' ∧
      (d'.FixedOn roof ↔ roofConnected.ConfiguredFor roof) :=
  let _ := sphp
  let _ := plainText
  have he : unattended [.poll, .reconnect] := by simp [unattended]
  stays_iff ⟨rfl, rfl, rfl⟩ he (by simp)

/-- Then `POST /api/base/sites/mast/activate`. -/
def mastActivated : Daemon :=
  let _ := sphp
  let _ := plainText
  roofConnected.next (.activateSite "mast") acks

/-- The activation puts the base on `mast`, and the next reconnect puts it back on the `roof`
it was configured with. -/
theorem activated_then_reconnected :
    let _ := sphp
    let _ := plainText
    run step roofDaemon [(.reconnect, acks), (.activateSite "mast", acks)] = some mastActivated ∧
      mastActivated.FixedOn { mast with active := true } ∧
      (mastActivated.reconnect acks).FixedOn roof ∧
      ¬(mastActivated.reconnect acks).FixedOn { mast with active := true } := by
  intro _ _
  have hback : (mastActivated.reconnect acks).FixedOn roof :=
    ⟨by decide +kernel, by decide +kernel, by decide +kernel⟩
  refine ⟨rfl, ⟨by decide +kernel, by decide +kernel, by decide +kernel⟩, hback, fun h => ?_⟩
  exact absurd (h.eq hback) (by decide)

end Daemon

end Mtrtk
