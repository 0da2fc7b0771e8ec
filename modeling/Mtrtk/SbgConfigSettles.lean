import Mathlib.Algebra.Order.Round
import Mathlib.Data.Rat.Floor
import Mathlib.Tactic.Linarith
import Mathlib.Tactic.NormNum
import Mtrtk.SbgConfigSafe

/-!
# A configuration settles

A unit that holds what it is set to, up to what `same` lets pass (`Holds`). After `_configure` has
applied the profile to it, another run finds nothing to set : `configure_settles`.
-/

namespace Mtrtk

namespace Sbg

/-! ## Values that are set -/

theorem isClose_self (a : ℚ) : isClose a a = true := by
  have htol : (0 : ℚ) ≤ floatTol := by decide +kernel
  simp [isClose, htol]

theorem vecClose_self (v : Vec3) : vecClose v v = true := by
  simp [vecClose, isClose_self]

theorem same_self (v : Value) : same v v = true := by
  cases v <;> simp [same, vecClose_self, isClose_self]

/-- What is wanted of an item that holds what was wanted of it is what it holds. -/
def Stable (target : Value → Option Value) : Prop :=
  ∀ current want held want', target current = some want → same want held = true →
    target held = some want' → same want' held = true

theorem stable_const (v : Option Value) : Stable fun _ => v := by
  intro _ want held want' h hheld h'
  obtain rfl : want = want' := Option.some.inj (h.symm.trans h')
  exact hheld

theorem stable_gnssTarget (s : Settings) : Stable (gnssTarget s) := by
  intro current want held want' h hheld h'
  cases held with
  | gnss held =>
    cases current with
    | gnss current =>
      unfold gnssTarget at h
      split_ifs at h with hnone
      simp only [gnssTarget, if_neg hnone] at h'
      obtain rfl := Option.some.inj h
      obtain rfl := Option.some.inj h'
      revert hheld
      cases s.leverArmGnss1 <;> cases s.leverArmGnss2 <;>
        simp +contextual [same, vecClose_self]
    | mode | enabled | imu | aiding | init | uart => exact nomatch h
  | mode | enabled | imu | aiding | init | uart => exact nomatch h'

theorem stable_imuTarget (axes : Option (ℕ × ℕ)) (s : Settings) : Stable (imuTarget axes s) := by
  intro current want held want' h hheld h'
  cases held with
  | imu held =>
    cases current with
    | imu current =>
      unfold imuTarget at h
      split_ifs at h with hnone
      simp only [imuTarget, if_neg hnone] at h'
      obtain rfl := Option.some.inj h
      obtain rfl := Option.some.inj h'
      revert hheld
      cases axes <;> cases s.imuLeverArm <;>
        simp +contextual [same, vecClose_self, isClose_self]
    | mode | enabled | gnss | aiding | init | uart => exact nomatch h
  | mode | enabled | gnss | aiding | init | uart => exact nomatch h'

theorem stable_aidingTarget (s : Settings) : Stable (aidingTarget s) := by
  intro current want held want' h hheld h'
  cases held with
  | aiding held =>
    cases current with
    | aiding current =>
      by_cases hfed : (s.ntripUrl || s.rtcmPort) = true
      · rw [aidingTarget, if_pos hfed] at h h'
        obtain rfl := Option.some.inj h
        obtain rfl := Option.some.inj h'
        -- these are compared exactly
        obtain rfl : { current with rtcmPort := if s.rtcmPort then 1 else 0 } = held := by
          simpa [same] using hheld
        exact same_self _
      · rw [aidingTarget, if_neg hfed] at h
        exact nomatch h
    | mode | enabled | gnss | imu | init | uart => exact nomatch h
  | mode | enabled | gnss | imu | init | uart => exact nomatch h'

theorem stable_initTarget (today : ℕ) (s : Settings) : Stable (initTarget today s) := by
  intro current want held want' h hheld h'
  cases held with
  | init held =>
    cases current with
    | init current =>
      obtain ⟨v, hv, rfl⟩ := Option.map_eq_some_iff.1 h
      obtain ⟨v', hv', rfl⟩ := Option.map_eq_some_iff.1 h'
      obtain rfl := Option.some.inj (hv.symm.trans hv')
      exact hheld
    | mode | enabled | gnss | imu | aiding | uart => exact nomatch h
  | mode | enabled | gnss | imu | aiding | uart => exact nomatch h'

variable {today : ℕ} {s : Settings} {apply : Bool} {p : Progress} {item : Item} {l : Asked}
  {r : Option Progress} {items : List Item}

theorem stable_items {is : List Item} (h : Sbg.items today s = .ok is) :
    ∀ item ∈ is, Stable item.target := by
  obtain ⟨nav, axes, rfl⟩ := items_eq h
  intro item hitem
  simp only [List.mem_append, List.mem_map] at hitem
  rcases hitem with ((hitem | ⟨o, -, rfl⟩) | ⟨c, -, rfl⟩) | hitem
  · unfold uartItems at hitem
    rcases List.mem_cons.1 hitem with rfl | hitem
    · exact stable_const none
    · split at hitem
      · obtain rfl := List.mem_singleton.1 hitem
        exact stable_const none
      · exact absurd hitem List.not_mem_nil
  · exact stable_const _
  · exact stable_const _
  · simp only [unitItems, List.mem_cons, List.not_mem_nil, or_false] at hitem
    rcases hitem with rfl | rfl | rfl | rfl | rfl
    · exact stable_const _
    · exact stable_gnssTarget s
    · exact stable_imuTarget axes s
    · exact stable_aidingTarget s
    · exact stable_initTarget today s

/-! ## A unit that holds what it is set to -/

/-- What the unit holds of each item, by name. -/
abbrev Held := String → Value

/-- The unit goes from `u` to `u'` in the calls, and answers with what it holds. What it is set to it
holds up to the tolerance of `same`. -/
inductive Holds : Held → Asked → Held → Prop
  | nil (u : Held) : Holds u [] u
  | info {u u' : Held} {l : Asked} (serial : ℕ) (h : Holds u l u') :
      Holds u (⟨.info, .ok serial⟩ :: l) u'
  | get {u u' : Held} {l : Asked} (item : Item) (h : Holds u l u') :
      Holds u (⟨.get item, .ok (u item.name)⟩ :: l) u'
  | set {u u' : Held} {l : Asked} (item : Item) (want held : Value) (hheld : same want held = true)
      (h : Holds (Function.update u item.name held) l u') :
      Holds u (⟨.set item want, .ok ()⟩ :: l) u'
  | save {u u' : Held} {l : Asked} (h : Holds u l u') : Holds u (⟨.save, .ok ()⟩ :: l) u'

theorem holds_append {l l' : Asked} {u u'' : Held} :
    Holds u (l ++ l') u'' ↔ ∃ u', Holds u l u' ∧ Holds u' l' u'' := by
  constructor
  · intro h
    induction l generalizing u with
    | nil => exact ⟨u, .nil u, h⟩
    | cons x l ih =>
      cases h with
      | info serial h =>
        obtain ⟨u', h₁, h₂⟩ := ih h
        exact ⟨u', .info serial h₁, h₂⟩
      | get item h =>
        obtain ⟨u', h₁, h₂⟩ := ih h
        exact ⟨u', .get item h₁, h₂⟩
      | set item want held hheld h =>
        obtain ⟨u', h₁, h₂⟩ := ih h
        exact ⟨u', .set item want held hheld h₁, h₂⟩
      | save h =>
        obtain ⟨u', h₁, h₂⟩ := ih h
        exact ⟨u', .save h₁, h₂⟩
  · rintro ⟨u', h, h'⟩
    induction h with
    | nil => exact h'
    | info serial _ ih => exact .info serial (ih h')
    | get item _ ih => exact .get item (ih h')
    | set item want held hheld _ ih => exact .set item want held hheld (ih h')
    | save _ ih => exact .save (ih h')

/-- The baud rate of Port A that the unit holds. -/
def Held.baud (u : Held) : Option ℕ :=
  match u uartA with
  | .uart uart => some uart.baud
  | _ => none

/-- The item is as it should be, or the link does not carry it. -/
def SettledAt (s : Settings) (u : Held) (item : Item) : Prop :=
  ∀ want, item.target (u item.name) = some want → item.writable = true →
    same want (u item.name) = true ∨ item.fast = true ∧ ¬FastEnough s u.baud

/-- Only the item and the baud rate of Port A matter. -/
theorem SettledAt.congr {u u' : Held} (h : SettledAt s u item) (hitem : u' item.name = u item.name)
    (hport : u' uartA = u uartA) : SettledAt s u' item := by
  intro want hwant hwritable
  rw [hitem] at hwant ⊢
  rw [Held.baud, hport]
  exact h want hwant hwritable

/-- After an item was applied to it, the unit holds the item as it should be, and the others as
before. -/
theorem ItemRun.settles {u u' : Held} (hstable : Stable item.target) (hne : item.name ≠ uartA)
    (hbaud : p.report.baud = u.baud) (h : ItemRun s true p item l r) (hholds : Holds u l u') :
    SettledAt s u' item ∧ (∀ name ≠ item.name, u' name = u name) ∧ r.isSome = true := by
  cases h with
  | lost | unsupported | refused => exact nomatch hholds
  | setLost | setRefused =>
    cases hholds with
    | get _ hholds => exact nomatch hholds
  | unchanged current hcond =>
    cases hholds with
    | get _ hholds =>
      cases hholds
      refine ⟨fun want hwant hwritable => ?_, fun _ _ => rfl, rfl⟩
      rcases hcond want hwant with hreadOnly | hsame
      · exact absurd hwritable (by simp [hreadOnly])
      · exact Or.inl hsame
  | pending current want htarget hwhy =>
    cases hholds with
    | get _ hholds =>
      cases hholds
      refine ⟨fun want' hwant hwritable => Or.inr ?_, fun _ _ => rfl, rfl⟩
      obtain ⟨hfast, hslow⟩ := hwhy.resolve_left (by simp)
      refine ⟨hfast, fun henough => ?_⟩
      rw [← hbaud, ← baud_read hne (u item.name), ← linkTooSlow_eq_none] at henough
      rw [henough] at hslow
      exact nomatch hslow
  | set current want hsets answer _ p'' _ hback =>
    cases hholds with
    | get _ hholds =>
      cases hholds with
      | set _ _ held hheld hholds =>
        have hown : Function.update u item.name held item.name = held := Function.update_self _ _ _
        have hend : u' = Function.update u item.name held ∧ r.isSome = true := by
          cases hback with
          | lost | refused => exact nomatch hholds
          | applied | unsupported | mismatched =>
            cases hholds with
            | get _ hholds =>
              cases hholds
              exact ⟨rfl, rfl⟩
        obtain ⟨rfl, hsome⟩ := hend
        refine ⟨fun want' hwant _ => Or.inl ?_, fun name hname => Function.update_of_ne hname _ _,
          hsome⟩
        rw [hown] at hwant ⊢
        exact hstable _ _ _ _ hsets.target hheld hwant

/-- After the loop every item is as it should be. -/
theorem LoopRun.settles {u u' : Held} (hstable : ∀ item ∈ items, Stable item.target)
    (hport : ∀ item ∈ items, item.name ≠ uartA) (hnodup : (items.map Item.name).Nodup)
    (hbaud : p.report.baud = u.baud) (h : LoopRun s true p items l r) (hholds : Holds u l u') :
    (∀ item ∈ items, SettledAt s u' item) ∧ (∀ name ∉ items.map Item.name, u' name = u name) ∧
      r.isSome = true := by
  induction h generalizing u with
  | done =>
    cases hholds
    exact ⟨by simp, fun _ _ => rfl, rfl⟩
  | lost hrun =>
    obtain ⟨hitem, -⟩ := List.forall_mem_cons.1 hstable
    obtain ⟨hne, -⟩ := List.forall_mem_cons.1 hport
    exact absurd (hrun.settles hitem hne hbaud hholds).2.2 (by simp)
  | @next p p' item items l l' r hrun hrest ih =>
    obtain ⟨hitem, hstable⟩ := List.forall_mem_cons.1 hstable
    obtain ⟨hne, hport⟩ := List.forall_mem_cons.1 hport
    obtain ⟨hout, hnodup⟩ := List.nodup_cons.1 hnodup
    obtain ⟨u₁, hholds₁, hholds₂⟩ := holds_append.1 hholds
    obtain ⟨hsettled, hsame, -⟩ := hrun.settles hitem hne hbaud hholds₁
    have hbaud₁ : p'.report.baud = u₁.baud := by
      rw [hrun.baud hne, hbaud, Held.baud, Held.baud, hsame uartA hne.symm]
    obtain ⟨hall, hothers, hsome⟩ := ih hstable hport hnodup hbaud₁ hholds₂
    have hportOut : uartA ∉ items.map Item.name := fun hmem => by
      obtain ⟨other, hother, heq⟩ := List.mem_map.1 hmem
      exact hport other hother heq
    refine ⟨List.forall_mem_cons.2 ⟨?_, hall⟩, fun name hname => ?_, hsome⟩
    · exact hsettled.congr (hothers item.name hout) (hothers uartA hportOut)
    · obtain ⟨hname, hrestName⟩ := not_or.1 (List.mem_cons.not.1 hname)
      rw [hothers name hrestName, hsame name hname]

/-- Where an item is as it should be it is not set. -/
theorem ItemRun.idle {u u' : Held} (hne : item.name ≠ uartA) (hbaud : p.report.baud = u.baud)
    (hsettled : SettledAt s u item) (h : ItemRun s apply p item l r) (hholds : Holds u l u') :
    u' = u ∧ ∀ x ∈ l, ∃ a, x = ⟨.get item, a⟩ := by
  have hsets : ∀ want, ¬Sets s apply p item (u item.name) want := by
    intro want hsets
    rcases hsettled want hsets.target hsets.writable with hsame | ⟨hfast, hslow⟩
    · rw [hsets.differs] at hsame
      exact nomatch hsame
    · refine hslow ?_
      rw [← hbaud, ← baud_read hne (u item.name)]
      exact linkTooSlow_eq_none.1 (hsets.fast hfast)
  cases h with
  | lost | unsupported | refused => exact nomatch hholds
  | unchanged | pending =>
    cases hholds with
    | get _ hholds =>
      cases hholds
      exact ⟨rfl, List.forall_mem_singleton.2 ⟨_, rfl⟩⟩
  | setLost _ want hdiffers | setRefused _ want hdiffers | set _ want hdiffers =>
    cases hholds with
    | get => exact absurd hdiffers (hsets want)

theorem LoopRun.idle {u u' : Held} (hport : ∀ item ∈ items, item.name ≠ uartA)
    (hbaud : p.report.baud = u.baud) (hsettled : ∀ item ∈ items, SettledAt s u item)
    (h : LoopRun s apply p items l r) (hholds : Holds u l u') :
    u' = u ∧ ∀ x ∈ l, ∃ item a, x = ⟨.get item, a⟩ := by
  induction h with
  | done =>
    cases hholds
    exact ⟨rfl, by simp⟩
  | lost hrun =>
    obtain ⟨hitem, -⟩ := List.forall_mem_cons.1 hsettled
    obtain ⟨hne, -⟩ := List.forall_mem_cons.1 hport
    obtain ⟨heq, hgets⟩ := hrun.idle hne hbaud hitem hholds
    exact ⟨heq, fun x hx => ⟨_, hgets x hx⟩⟩
  | next hrun hrest ih =>
    obtain ⟨hitem, hsettled⟩ := List.forall_mem_cons.1 hsettled
    obtain ⟨hne, hport⟩ := List.forall_mem_cons.1 hport
    obtain ⟨u₁, hholds₁, hholds₂⟩ := holds_append.1 hholds
    obtain ⟨rfl, hgets⟩ := hrun.idle hne hbaud hitem hholds₁
    obtain ⟨heq, hrestGets⟩ := ih hport ((hrun.baud hne).trans hbaud) hsettled hholds₂
    refine ⟨heq, fun x hx => ?_⟩
    rcases List.mem_append.1 hx with hx | hx
    · exact ⟨_, hgets x hx⟩
    · exact hrestGets x hx

/-- The baud rate of Port A is read before anything else. -/
theorem ItemRun.readPort {u u' : Held} (hnone : p.report.baud = none)
    (h : ItemRun s apply p uartItem l r) (hholds : Holds u l u') :
    u' = u ∧ ∀ p' ∈ r, p'.report.baud = u.baud := by
  obtain ⟨⟨a, rfl⟩, hbaud⟩ := h.uart hnone
  cases hholds with
  | get _ hholds =>
    cases hholds
    refine ⟨rfl, fun p' hp => ?_⟩
    rw [hbaud p' hp, Held.baud]
    cases hu : u uartA <;> simp [portABaud, AskedCall.baud, uartItem, hu]

/-- Behind the loop nothing is set. -/
theorem ConcludeRun.holds {serial : ℕ} {d d' : DriverState} {report : Option Report} {u u' : Held}
    (h : ConcludeRun s apply serial p d l report d') (hholds : Holds u l u') :
    u' = u ∧ ∀ item want (a : Except Fault Unit), (⟨.set item want, a⟩ : AskedCall) ∉ l := by
  cases h with
  | unsaved =>
    cases hholds
    exact ⟨rfl, by simp⟩
  | saved =>
    cases hholds with
    | save hholds =>
      cases hholds
      exact ⟨rfl, by simp⟩

/-- After the loop of a whole profile. -/
theorem LoopRun.settles_profile {serial : ℕ} {is : List Item} {u u' : Held}
    (hitems : Sbg.items today s = .ok is) (h : LoopRun s true (started serial) is l r)
    (hholds : Holds u l u') : ∀ item ∈ is, SettledAt s u' item := by
  have hstable := stable_items hitems
  have hnodup := nodup_items hitems
  obtain ⟨rest, rfl, hport⟩ := items_head hitems
  have huart : ∀ u, SettledAt s u uartItem := fun u want hwant => nomatch hwant
  cases h with
  | lost hrun =>
    cases hrun with
    | lost => exact nomatch hholds
    | setLost _ _ hsets => exact nomatch hsets.target
    | set _ _ hsets => exact nomatch hsets.target
  | next hrun hrest =>
    obtain ⟨u₁, hholds₁, hholds₂⟩ := holds_append.1 hholds
    obtain ⟨rfl, hbaud⟩ := hrun.readPort rfl hholds₁
    obtain ⟨hall, -⟩ := hrest.settles (List.forall_mem_cons.1 hstable).2 hport
      (List.nodup_cons.1 hnodup).2 (hbaud _ rfl) hholds₂
    exact List.forall_mem_cons.2 ⟨huart u', hall⟩

/-- The loop of a whole profile, where every item is as it should be. -/
theorem LoopRun.idle_profile {serial : ℕ} {is : List Item} {u u' : Held}
    (hitems : Sbg.items today s = .ok is) (hsettled : ∀ item ∈ is, SettledAt s u item)
    (h : LoopRun s apply (started serial) is l r) (hholds : Holds u l u') :
    u' = u ∧ ∀ x ∈ l, ∃ item a, x = ⟨.get item, a⟩ := by
  obtain ⟨rest, rfl, hport⟩ := items_head hitems
  cases h with
  | lost hrun =>
    obtain ⟨⟨a, rfl⟩, -⟩ := hrun.uart rfl
    exact ⟨(hrun.readPort rfl hholds).1, List.forall_mem_singleton.2 ⟨_, a, rfl⟩⟩
  | next hrun hrest =>
    obtain ⟨⟨a, rfl⟩, -⟩ := hrun.uart rfl
    obtain ⟨u₁, hholds₁, hholds₂⟩ := holds_append.1 hholds
    obtain ⟨rfl, hbaud⟩ := hrun.readPort rfl hholds₁
    obtain ⟨heq, hgets⟩ := hrest.idle hport (hbaud _ rfl) (List.forall_mem_cons.1 hsettled).2 hholds₂
    refine ⟨heq, fun x hx => ?_⟩
    rcases List.mem_append.1 hx with hx | hx
    · exact ⟨_, a, List.mem_singleton.1 hx⟩
    · exact hgets x hx

/-- A run with the profile on a unit where every item is as it should be. -/
theorem idle_of_settled {e e' : DriverState} {report : Option Report} {u u' : Held}
    (hsettled : ∀ is, Sbg.items today s = .ok is → ∀ item ∈ is, SettledAt s u item)
    (h : Configured (configure today s apply) e l report e') (hholds : Holds u l u') :
    u' = u ∧ ∀ item want (a : Except Fault Unit), (⟨.set item want, a⟩ : AskedCall) ∉ l := by
  cases configureRun h with
  | lost | silent => exact nomatch hholds
  | noProfile serial text hnone p hp hend =>
    cases hholds with
    | info _ hholds =>
      obtain ⟨heq, hnotSet⟩ := hend.holds hholds
      exact ⟨heq, fun item want a hmem => hnotSet item want a (by simpa using hmem)⟩
  | broken serial is hitems hrun =>
    cases hholds with
    | info _ hholds =>
      obtain ⟨heq, hgets⟩ := hrun.idle_profile hitems (hsettled is hitems) hholds
      refine ⟨heq, fun item want a hmem => ?_⟩
      obtain ⟨i, a', hget⟩ := hgets _ (by simpa using hmem)
      exact nomatch hget
  | concluded serial is hitems hrun hend =>
    cases hholds with
    | info _ hholds =>
      obtain ⟨u₁, hholds₁, hholds₂⟩ := holds_append.1 hholds
      obtain ⟨rfl, hgets⟩ := hrun.idle_profile hitems (hsettled is hitems) hholds₁
      obtain ⟨heq, hnotSet⟩ := hend.holds hholds₂
      refine ⟨heq, fun item want a hmem => ?_⟩
      rcases List.mem_cons.1 hmem with hinfo | hmem
      · exact nomatch hinfo
      · rcases List.mem_append.1 hmem with hmem | hmem
        · obtain ⟨i, a', hget⟩ := hgets _ hmem
          exact nomatch hget
        · exact hnotSet item want a hmem

/-- The first run applies the profile to a unit that holds what it is set to. Then any other run with
the profile only reads. -/
theorem configure_settles {d d' e e' : DriverState} {l l' : Asked} {report report' : Option Report}
    {u u' u'' : Held} (h : Configured (configure today s true) d l report d') (hholds : Holds u l u')
    (h' : Configured (configure today s apply) e l' report' e') (hholds' : Holds u' l' u'') :
    u'' = u' ∧ ∀ item want (a : Except Fault Unit), (⟨.set item want, a⟩ : AskedCall) ∉ l' := by
  refine idle_of_settled (fun is hitems => ?_) h' hholds'
  cases configureRun h with
  | lost | silent => exact nomatch hholds
  | noProfile _ _ hnone => exact nomatch hitems.symm.trans hnone
  | broken serial is' hitems' hrun =>
    obtain rfl := Except.ok.inj (hitems.symm.trans hitems')
    cases hholds with
    | info _ hholds => exact hrun.settles_profile hitems hholds
  | concluded serial is' hitems' hrun hend =>
    obtain rfl := Except.ok.inj (hitems.symm.trans hitems')
    cases hholds with
    | info _ hholds =>
      obtain ⟨u₁, hholds₁, hholds₂⟩ := holds_append.1 hholds
      obtain ⟨rfl, -⟩ := hend.holds hholds₂
      exact hrun.settles_profile hitems hholds₁

/-- The run at a unit that stores what it is set to. -/
def served {α : Type} (store : Value → Value) :
    Configuring α → DriverState → Held → Asked × α × DriverState × Held
  | .ret a, d, u => ([], a, d, u)
  | .get k, d, u => served store (k d) d u
  | .set d k, _, u => served store k d u
  | .call .info k, d, u =>
    let rest := served store (k (.ok 7)) d u
    (⟨.info, .ok 7⟩ :: rest.1, rest.2)
  | .call (.get item) k, d, u =>
    let rest := served store (k (.ok (u item.name))) d u
    (⟨.get item, .ok (u item.name)⟩ :: rest.1, rest.2)
  | .call (.set item want) k, d, u =>
    let rest := served store (k (.ok ())) d (Function.update u item.name (store want))
    (⟨.set item want, .ok ()⟩ :: rest.1, rest.2)
  | .call .save k, d, u =>
    let rest := served store (k (.ok ())) d u
    (⟨.save, .ok ()⟩ :: rest.1, rest.2)

theorem served_spec {α : Type} {store : Value → Value} (hstore : ∀ v, same v (store v) = true)
    (c : Configuring α) (d : DriverState) (u : Held) :
    Configured c d (served store c d u).1 (served store c d u).2.1 (served store c d u).2.2.1 ∧
      Holds u (served store c d u).1 (served store c d u).2.2.2 := by
  induction c generalizing d u with
  | ret a => exact ⟨.ret a d, .nil u⟩
  | get k ih => exact ⟨.get (ih d d u).1, (ih d d u).2⟩
  | set d' k ih => exact ⟨.set (ih d' u).1, (ih d' u).2⟩
  | call q k ih =>
    cases q with
    | info => exact ⟨.call .refl rfl (ih _ d u).1, .info 7 (ih _ d u).2⟩
    | get item => exact ⟨.call .refl rfl (ih _ d u).1, .get item (ih _ d u).2⟩
    | set item want =>
      exact ⟨.call .refl rfl (ih _ d _).1, .set item want _ (hstore want) (ih _ d _).2⟩
    | save => exact ⟨.call .refl rfl (ih _ d u).1, .save (ih _ d u).2⟩

/-- A float that is stored, to twenty binary places. -/
def stored (x : ℚ) : ℚ := round (x * 2 ^ 20) / 2 ^ 20

theorem isClose_stored (x : ℚ) : isClose x (stored x) = true := by
  have hscale : |x - stored x| * 2 ^ 20 = |x * 2 ^ 20 - round (x * 2 ^ 20)| := by
    rw [← abs_of_pos (by norm_num : (0 : ℚ) < 2 ^ 20), ← abs_mul, stored, sub_mul,
      abs_of_pos (by norm_num : (0 : ℚ) < 2 ^ 20), div_mul_cancel₀ _ (by norm_num)]
  have hround := abs_sub_round (x * 2 ^ 20)
  rw [← hscale] at hround
  have htol : |x - stored x| ≤ floatTol := by
    unfold floatTol
    linarith
  exact decide_eq_true (htol.trans (le_max_right _ _))

/-- What a unit stores of a value. -/
def storedValue : Value → Value
  | .gnss v =>
    .gnss { v with
      leverArmPrimary := v.leverArmPrimary.map stored (Prod.map stored stored)
      leverArmSecondary := v.leverArmSecondary.map stored (Prod.map stored stored) }
  | .imu v =>
    .imu { v with
      misRoll := stored v.misRoll
      misPitch := stored v.misPitch
      misYaw := stored v.misYaw
      leverArm := v.leverArm.map stored (Prod.map stored stored) }
  | v => v

theorem same_storedValue (v : Value) : same v (storedValue v) = true := by
  cases v <;> simp [storedValue, same, vecClose, isClose_stored, isClose_self]

/-- A unit that was never configured. -/
def factoryUnit (name : String) : Value :=
  match name with
  | "uart:COM_A" => .uart ⟨0, 115200, 0⟩
  | "class:LOG_NMEA_0" | "class:LOG_NMEA_1" | "class:LOG_NMEA_GNSS" => .enabled true
  | "motion_profile" => .mode 1
  | "gnss_installation" => .gnss ⟨(0, 0, 0), false, (0, 0, 0), 1⟩
  | "imu_alignment" => .imu ⟨0, 2, 0, 0, 0, (0, 0, 0)⟩
  | "aiding_assignment" => .aiding ⟨0, 0, 255, 0, 255, 255, 0⟩
  | "init_position" => .init ⟨0, 0, 0, none⟩
  | _ => .mode 0

/-- A car, with an antenna on its roof. -/
def carSettings : Settings where
  leverArmGnss1 := some (1 / 10, 0, -13 / 10)
  imuLeverArm := some (1 / 3, 0, 0)
  motionProfile := some "automotive"
  ntripUrl := true
  initPosition := some (481 / 10, 23 / 10, 35)
  applyConfig := true

/-- The car's profile is applied, with lever arms that the unit stores a little off, and looked at
again. -/
theorem configure_settles_car :
    let first := served storedValue (configure 0 carSettings true) {} factoryUnit
    let again := served storedValue (configure 0 carSettings true) first.2.2.1 first.2.2.2
    first.2.2.2 "gnss_installation" =
      .gnss ⟨(104858 / 1048576, 0, -1363149 / 1048576), true, (0, 0, 0), 1⟩ ∧
    again.2.2.2 = first.2.2.2 ∧
      ∀ item want (a : Except Fault Unit), (⟨.set item want, a⟩ : AskedCall) ∉ again.1 :=
  ⟨by decide +kernel, configure_settles (served_spec same_storedValue _ _ _).1
    (served_spec same_storedValue _ _ _).2 (served_spec same_storedValue _ _ _).1
    (served_spec same_storedValue _ _ _).2⟩

end Sbg

end Mtrtk
