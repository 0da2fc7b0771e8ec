import Mtrtk.Reconnect

/-!
# Mode changes

`PUT /api/base/mode` is a no-op where the running settings and `.env` hold the values of the
body already (`Daemon.UpToDate`). The manager moves to a mode of its own in the poll and in
the fallback to survey-in, and the settings do not follow. `Daemon.putMode_takes_effect_iff` :
a mode change that succeeds takes effect exactly when the manager is in that mode, or the
settings or the file are not up to date. `Daemon.putMode_ignored` : it has none on a base
that the poll moved off the survey-in its settings ask for.

`BaseModeManager.Grounded` is what holds between two operations : only a fixed base has a
site applied.
-/

namespace Mtrtk

namespace BaseModeManager

/-- Only a fixed base has a site applied. -/
def Grounded (m : BaseModeManager) : Prop := ∀ site, m.appliedSite = some site → m.mode = .fixed

section Exec

variable (w : World) (m : BaseModeManager)

theorem Grounded.of_none {m : BaseModeManager} (h : m.appliedSite = none) : m.Grounded :=
  fun _ hs => absurd (hs.symm.trans h) (Option.some_ne_none _)

theorem exec_applyItems (items : CfgItems) :
    (applyItems items).exec World.reply w m =
      (w.answers 0, { w with answers := fun n => w.answers (n + 1) },
        m.answered items (w.answers 0)) := rfl

/-- A write without a position leaves no site applied, and the mode alone. -/
theorem exec_applyTmode_spec (items : CfgItems) (reason : Option String) :
    ((applyTmode items reason).exec World.reply w m).2.2.appliedSite = none ∧
      ((applyTmode items reason).exec World.reply w m).2.2.mode = m.mode := by
  simp only [applyTmode, Co.exec_bind, Co.exec_modify, exec_applyItems]
  generalize w.answers 0 = answer
  rcases answer with _ | _ | _ <;> exact ⟨rfl, rfl⟩

variable {m}

/-- A fixed position is taken, or leaves mode and site alone. -/
theorem Grounded.exec_applyFixed [Pyubx2] (h : m.Grounded) (site : Site) :
    ((applyFixed site).exec World.reply w m).2.2.Grounded := by
  simp only [applyFixed, Co.exec_bind, exec_applyItems]
  generalize w.answers 0 = answer
  rcases answer with _ | _ | _
  · exact fun _ _ => rfl
  · exact h
  · exact h

/-- The manager looks its site up and is as before. -/
theorem exec_resolveSite_manager : (resolveSite.exec World.reply w m).2.2 = m := by
  simp only [resolveSite, Co.exec_bind, Co.exec_get]
  split
  · rfl
  · simp only [Co.exec_bind, exec_sitesGet]
    split
    · rfl
    · split_ifs
      · rfl
      · simp only [Co.exec_bind]
        split <;> rfl

/-- `_apply_mode` leaves a site applied in fixed mode only, wherever it starts, and keeps the
mode where that is not fixed. -/
theorem exec_applyMode_spec [Pyubx2] : (applyMode.exec World.reply w m).2.2.Grounded ∧
    (m.mode ≠ .fixed → (applyMode.exec World.reply w m).2.2.mode = m.mode) := by
  simp only [applyMode, Co.exec_bind, Co.exec_modify, Co.exec_get]
  split
  · next hm =>
    refine ⟨?_, fun h => absurd hm h⟩
    simp only [Co.exec_bind]
    split
    · rw [exec_resolveSite_manager]
      exact fun _ _ => hm
    · simp only [Co.exec_bind, Co.exec_modify, exec_resolveSite_manager]
      split
      · simp only [Co.exec_discard]
        refine Grounded.exec_applyFixed _ ?_ _
        exact fun _ _ => hm
      · simp only [Co.exec_bind, Co.exec_modify, Co.exec_get, Co.exec_discard]
        exact .of_none (exec_applyTmode_spec _ _ _ _).1
  · simp only [Co.exec_bind, Co.exec_modify, Co.exec_get, exec_sitesActive]
    split
    all_goals
      simp only [Co.exec_bind, Co.exec_get, Co.exec_discard]
      exact ⟨.of_none (exec_applyTmode_spec _ _ _ _).1, fun _ => (exec_applyTmode_spec _ _ _ _).2⟩

theorem exec_restartSurveyIn_grounded :
    (restartSurveyIn.exec World.reply w m).2.2.Grounded := by
  simp only [restartSurveyIn, Co.exec_bind, Co.exec_modify]
  split_ifs
  · exact .of_none (exec_applyTmode_spec _ _ _ _).1
  · simp only [Co.exec_bind, Co.exec_modify, Co.exec_get]
    split_ifs
    all_goals exact .of_none (exec_applyTmode_spec _ _ _ _).1

theorem Grounded.exec_activateSite [Pyubx2] (h : m.Grounded) (name : String) :
    ((activateSite name).exec World.reply w m).2.2.Grounded := by
  simp only [activateSite, Co.exec_bind, exec_sitesActivate]
  split
  · exact h
  · simp only [Co.exec_bind, Co.exec_discard]
    exact h.exec_applyFixed _ _

theorem Grounded.exec_pollActiveSite [Pyubx2] (h : m.Grounded) :
    (pollActiveSite.exec World.reply w m).2.2.Grounded := by
  simp only [pollActiveSite, Co.exec_bind, exec_sitesActive]
  split
  · exact h
  · next active _ =>
    cases hi : m.ignores active with
    | true => simpa [hi] using h
    | false => simpa [hi] using h.exec_applyFixed _ _

end Exec

end BaseModeManager

namespace Daemon

section Mode

variable [Pyubx2] {d d' : Daemon} {body : ModeBody} {answers : ℕ → Answer}

omit [Pyubx2] in
theorem mode_of_alreadyApplied {m : BaseModeManager} {wasMode : BaseMode}
    {wasSite : Option String} {changed : List LiveKey}
    (h : alreadyApplied m wasMode wasSite changed = true) : m.mode = wasMode := by
  unfold alreadyApplied at h
  split_ifs at h with hm
  exact not_not.1 hm

/-- Going live ends in the mode of the settings where that is not fixed, and in it where a
site resolves. -/
theorem applyLive_spec (h : d.manager.Grounded) (candidate : Settings) (changed : List LiveKey)
    (answers : ℕ → Answer) :
    (d.applyLive candidate changed answers).manager.Grounded ∧
      ((d.settings.assign candidate changed).baseMode ≠ .fixed →
        (d.applyLive candidate changed answers).manager.mode =
          (d.settings.assign candidate changed).baseMode) := by
  unfold applyLive
  simp only
  split_ifs with happlied
  · have hmode : (d.settings.assign candidate changed).baseMode = d.manager.mode :=
      mode_of_alreadyApplied happlied
    exact ⟨fun site hs => hmode.trans (h site hs), fun _ => rfl⟩
  · exact BaseModeManager.exec_applyMode_spec _

theorem applyLive_fixed {candidate : Settings} {changed : List LiveKey}
    (hmode : (d.settings.assign candidate changed).baseMode = .fixed)
    (hsite : (resolveFixedSite d.sites
      (d.settings.assign candidate changed).activeSite).isSome) :
    (d.applyLive candidate changed acks).manager.mode = .fixed := by
  obtain ⟨site, hsite⟩ := Option.isSome_iff_exists.1 hsite
  unfold applyLive
  simp only
  split_ifs
  · exact hmode
  · obtain ⟨s', hfixed, -⟩ := reconnect_fixed
      (d := { d with
        settings := d.settings.assign candidate changed
        manager := moved d.manager (d.settings.assign candidate changed) }) hmode hsite
    exact hfixed.mode

variable [PyText]

/-- A mode change that succeeds finds nothing changed, or writes the file and goes live. -/
theorem putMode_cases (h : d.putMode body answers = .ok d') :
    ∃ targets, envValues (d.settings.merged body) (LiveKey.all.filter body.posts) = .ok targets ∧
      (d.changedKeys (d.settings.merged body) targets = [] ∧ d' = d ∨
        d.changedKeys (d.settings.merged body) targets ≠ [] ∧
        d' = { d with env := updateEnv d.env targets }.applyLive (d.settings.merged body)
          (d.changedKeys (d.settings.merged body) targets) answers) := by
  unfold putMode Settings.validated at h
  split at h
  · exact nomatch h
  · simp only [bind, Except.bind] at h
    split at h
    · exact nomatch h
    · next targets htargets =>
      refine ⟨targets, htargets, ?_⟩
      split_ifs at h with hch hsite
      · exact .inl ⟨hch, (Except.ok.inj h).symm⟩
      · exact .inr ⟨hch, (Except.ok.inj h).symm⟩

/-! ## Between two operations -/

theorem putMode_grounded (h : d.manager.Grounded) (hput : d.putMode body answers = .ok d') :
    d'.manager.Grounded := by
  obtain ⟨targets, -, ⟨-, rfl⟩ | ⟨-, rfl⟩⟩ := putMode_cases hput
  · exact h
  · exact (applyLive_spec (by exact h) _ _ _).1

theorem activateSite_grounded (h : d.manager.Grounded) {name : String}
    (hact : d.activateSite name answers = .ok d') : d'.manager.Grounded := by
  unfold activateSite at hact
  split_ifs at hact
  split at hact
  · exact nomatch hact
  · next site d₁ heq =>
    obtain rfl := Except.ok.inj hact
    obtain rfl : (d.perform answers (BaseModeManager.activateSite name)).2 = d₁ := by rw [heq]
    exact h.exec_activateSite _ name

omit [Pyubx2] [PyText] in
theorem manager_of_sites {α : Type} (o : Option α) (f : α → SitesTable) :
    ((o.map fun r => { d with sites := f r }).getD d).manager = d.manager := by
  cases o <;> rfl

theorem next_grounded (h : d.manager.Grounded) (e : Event) (answers : ℕ → Answer) :
    (d.next e answers).manager.Grounded := by
  cases e with
  | putMode body =>
    cases hput : d.putMode body answers with
    | error e => simpa [next, hput, Except.toOption] using h
    | ok d' => simpa [next, hput, Except.toOption] using putMode_grounded h hput
  | activateSite name =>
    cases hact : d.activateSite name answers with
    | error e => simpa [next, hact, Except.toOption] using h
    | ok d' => simpa [next, hact, Except.toOption] using activateSite_grounded h hact
  | restartSurvey =>
    unfold next restartSurvey
    split_ifs
    · exact h
    · exact BaseModeManager.exec_restartSurveyIn_grounded _
  | sitesActivate name => exact (manager_of_sites (d.sites.activate name) Prod.snd).symm ▸ h
  | sitesAdd site => exact (manager_of_sites (d.sites.add site) id).symm ▸ h
  | sitesDelete name => exact (manager_of_sites (d.sites.delete name) id).symm ▸ h
  | poll => exact h.exec_pollActiveSite _
  | reconnect => exact (BaseModeManager.exec_applyMode_spec _).1

theorem grounded_of_reachable {settings : Settings} {env : Env} {sites : SitesTable}
    (h : Reachable step (start settings env sites) d) : d.manager.Grounded := by
  refine h.invariant (·.manager.Grounded) (.of_none rfl) fun t i t' _ ht hs => ?_
  exact Option.some.inj hs ▸ next_grounded ht i.1 i.2

/-! ## The mode after a mode change -/

omit [Pyubx2] [PyText] in
theorem resolveFixedSite_isSome_of_filter {sites : SitesTable} {name : Option String}
    {p : String → Bool} (h : (resolveFixedSite sites (name.filter p)).isSome) :
    (resolveFixedSite sites name).isSome := by
  cases name with
  | none => exact h
  | some n =>
    cases hp : p n with
    | true => simpa [Option.filter, hp] using h
    | false =>
      have hactive : sites.active.isSome := by
        simpa [Option.filter, hp, resolveFixedSite, truthy] using h
      unfold resolveFixedSite
      split
      · exact hactive
      · simp [hactive]

/-- Of every key the body posts, the running settings and the file, where it has the key,
hold the value. -/
def UpToDate (d : Daemon) (body : ModeBody) : Prop :=
  ∀ key, body.posts key → (d.settings.merged body).same d.settings key ∧
    ∀ value, d.env key = some value → (d.settings.merged body).toEnvValue key = .ok value

section UpToDate

variable {targets : List (LiveKey × String)}

omit [Pyubx2] in
theorem mem_changedKeys
    (ht : envValues (d.settings.merged body) (LiveKey.all.filter body.posts) = .ok targets)
    {key : LiveKey} : key ∈ d.changedKeys (d.settings.merged body) targets ↔
      body.posts key ∧ ∃ target, (d.settings.merged body).toEnvValue key = .ok target ∧
        ((d.settings.merged body).same d.settings key → ∃ v, d.env key = some v ∧ v ≠ target) := by
  have hmem : ∀ target, (key, target) ∈ targets ↔
      body.posts key ∧ (d.settings.merged body).toEnvValue key = .ok target := fun target => by
    simp [(envValues_spec ht).2, LiveKey.mem_all]
  have hdiff : ∀ target, ((!(d.settings.merged body).same d.settings key ||
      (d.env key).any (· ≠ target)) = true ↔
      ((d.settings.merged body).same d.settings key → ∃ v, d.env key = some v ∧ v ≠ target)) :=
    fun target => by
      cases (d.settings.merged body).same d.settings key <;> cases d.env key <;> simp
  constructor
  · intro h
    obtain ⟨⟨_, target⟩, hx, rfl⟩ := List.mem_map.1 h
    obtain ⟨hm, hc⟩ := List.mem_filter.1 hx
    obtain ⟨hp, hv⟩ := (hmem target).1 hm
    exact ⟨hp, target, hv, (hdiff target).1 hc⟩
  · rintro ⟨hp, target, hv, hs⟩
    exact List.mem_map.2
      ⟨(key, target), List.mem_filter.2 ⟨(hmem target).2 ⟨hp, hv⟩, (hdiff target).2 hs⟩, rfl⟩

omit [Pyubx2] in
theorem changedKeys_eq_nil
    (ht : envValues (d.settings.merged body) (LiveKey.all.filter body.posts) = .ok targets) :
    d.changedKeys (d.settings.merged body) targets = [] ↔ d.UpToDate body := by
  simp only [List.eq_nil_iff_forall_not_mem, mem_changedKeys ht, UpToDate, not_and]
  refine forall_congr' fun key => imp_congr_right fun hp => ?_
  obtain ⟨target, htarget⟩ := (envValues_spec ht).1 key (by simpa [LiveKey.mem_all] using hp)
  constructor
  · intro h
    have hd : ¬((d.settings.merged body).same d.settings key →
        ∃ v, d.env key = some v ∧ v ≠ target) := fun hd => h ⟨target, htarget, hd⟩
    obtain ⟨hs, hno⟩ := Classical.not_imp.1 hd
    refine ⟨hs, fun v hv => htarget.trans (congrArg _ ?_)⟩
    exact (not_not.1 fun hne => hno ⟨v, hv, hne⟩).symm
  · rintro ⟨hs, henv⟩ ⟨t, hkt, hd⟩
    obtain ⟨v, hv, hne⟩ := hd hs
    exact hne (Except.ok.inj ((henv v hv).symm.trans hkt))

omit [Pyubx2] in
/-- A key that did not change has the same value in the settings. -/
theorem same_of_not_mem
    (ht : envValues (d.settings.merged body) (LiveKey.all.filter body.posts) = .ok targets)
    {key : LiveKey} (hp : body.posts key)
    (h : key ∉ d.changedKeys (d.settings.merged body) targets) :
    (d.settings.merged body).same d.settings key := by
  obtain ⟨target, htarget⟩ := (envValues_spec ht).1 key (by simpa [LiveKey.mem_all] using hp)
  by_contra hs
  exact h ((mem_changedKeys ht).2 ⟨hp, target, htarget, fun h' => absurd h' hs⟩)

omit [Pyubx2] in
theorem assign_baseMode
    (ht : envValues (d.settings.merged body) (LiveKey.all.filter body.posts) = .ok targets) :
    (d.settings.assign (d.settings.merged body)
      (d.changedKeys (d.settings.merged body) targets)).baseMode = body.mode := by
  by_cases h : .baseMode ∈ d.changedKeys (d.settings.merged body) targets
  · exact if_pos h
  · have hsame : body.mode = d.settings.baseMode := of_decide_eq_true (same_of_not_mem ht rfl h)
    exact (if_neg h).trans hsame.symm

omit [Pyubx2] in
/-- The site the settings name after the change resolves where the candidate's does : the
validation drops a blank name that the settings keep. -/
theorem assign_resolves
    (ht : envValues (d.settings.merged body) (LiveKey.all.filter body.posts) = .ok targets)
    (h : (resolveFixedSite d.sites (d.settings.merged body).activeSite).isSome) :
    (resolveFixedSite d.sites (d.settings.assign (d.settings.merged body)
      (d.changedKeys (d.settings.merged body) targets)).activeSite).isSome := by
  by_cases hc : .activeSite ∈ d.changedKeys (d.settings.merged body) targets
  · rwa [show (Settings.assign _ _ _).activeSite = _ from if_pos hc]
  · rw [show (Settings.assign _ _ _).activeSite = _ from if_neg hc]
    cases hs : body.site with
    | none => exact resolveFixedSite_isSome_of_filter (by simpa [Settings.merged, hs] using h)
    | some name =>
      have hsame : (d.settings.merged body).activeSite = d.settings.activeSite :=
        of_decide_eq_true (same_of_not_mem ht (by simp [ModeBody.posts, hs]) hc)
      rwa [← hsame]

end UpToDate

/-- A mode change of a reachable daemon that succeeds, its writes acknowledged and, for fixed
mode, a site there to resolve, takes effect exactly when the manager is in the mode already,
or the settings or the file are not up to date with the body. -/
theorem putMode_takes_effect_iff {settings : Settings} {env : Env} {sites : SitesTable}
    (hd : Reachable step (start settings env sites) d) (hput : d.putMode body acks = .ok d')
    (hsite : body.mode = .fixed →
      (resolveFixedSite d.sites (d.settings.merged body).activeSite).isSome) :
    (d'.manager.mode = body.mode ∧ (body.mode ≠ .fixed → d'.manager.appliedSite = none)) ↔
      (d.manager.mode = body.mode ∨ ¬d.UpToDate body) := by
  have hgrounded := grounded_of_reachable hd
  obtain ⟨targets, ht, ⟨hnil, rfl⟩ | ⟨hne, rfl⟩⟩ := putMode_cases hput
  · have hup := (changedKeys_eq_nil ht).1 hnil
    refine ⟨fun h => .inl h.1, fun h => ?_⟩
    have hmode := h.resolve_right (not_not.2 hup)
    exact ⟨hmode, fun hfix => Option.eq_none_iff_forall_ne_some.2 fun site hs =>
      hfix (hmode.symm.trans (hgrounded site hs))⟩
  · refine iff_of_true ?_ (.inr fun hup => hne ((changedKeys_eq_nil ht).2 hup))
    have hbase := assign_baseMode ht
    by_cases hfix : body.mode = .fixed
    · have hmode := applyLive_fixed (d := { d with env := updateEnv d.env targets })
        (hbase.trans hfix) (assign_resolves ht (hsite hfix))
      exact ⟨hmode.trans hfix.symm, fun h => absurd hfix h⟩
    · have hlive := applyLive_spec (d := { d with env := updateEnv d.env targets }) hgrounded
        (d.settings.merged body) (d.changedKeys (d.settings.merged body) targets) acks
      have hmode := (hlive.2 fun h => hfix (hbase.symm.trans h)).trans hbase
      exact ⟨hmode, fun _ => Option.eq_none_iff_forall_ne_some.2 fun site hs =>
        hfix (hmode.symm.trans (hlive.1 site hs))⟩

end Mode

open BaseModeManager (sphp)

/-- A daemon that surveys in, with `roof` active from before. -/
def surveyDaemon : Daemon := .start {} (fun _ => none) twoSites

/-- Connected, then put on `mast` by `mtrtk sites activate` and the poll. -/
def polledDaemon : Daemon :=
  let _ := sphp
  let _ := plainText
  ((surveyDaemon.next .reconnect acks).next (.sitesActivate "mast") acks).next .poll acks

/-- Then `PUT /api/base/mode` with the mode off. -/
def switchedOff : Daemon :=
  let _ := sphp
  let _ := plainText
  polledDaemon.next (.putMode { mode := .off }) acks

theorem putMode_takes_effect_iff_off :
    let _ := plainText
    (switchedOff.manager.mode = .off ∧
      (BaseMode.off ≠ .fixed → switchedOff.manager.appliedSite = none)) ↔
      (polledDaemon.manager.mode = .off ∨ ¬polledDaemon.UpToDate { mode := .off }) := by
  let _ := sphp
  let _ := plainText
  have hd : Reachable step (start {} (fun _ => none) twoSites) polledDaemon :=
    ⟨[(.reconnect, acks), (.sitesActivate "mast", acks), (.poll, acks)], rfl⟩
  have hput : polledDaemon.putMode { mode := .off } acks = .ok switchedOff := rfl
  exact putMode_takes_effect_iff hd hput fun h => absurd h (by decide)

/-- The base is fixed on `mast` and asked to survey in. The settings say survey-in still, so
the request succeeds and the base stays on `mast`. -/
theorem putMode_ignored :
    let _ := sphp
    let _ := plainText
    run step surveyDaemon [(.reconnect, acks), (.sitesActivate "mast", acks), (.poll, acks)] =
        some polledDaemon ∧
      polledDaemon.putMode { mode := .surveyIn } acks = .ok polledDaemon ∧
      polledDaemon.manager.mode = .fixed ∧
      polledDaemon.manager.appliedSite = some { mast with active := true } := by
  intro _ _
  exact ⟨rfl, rfl, by decide +kernel, by decide +kernel⟩

end Daemon

end Mtrtk
