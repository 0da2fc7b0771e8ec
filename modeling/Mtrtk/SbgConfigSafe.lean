import Mathlib.Data.List.Chain
import Mtrtk.SbgConfigRun

/-!
# A configuration never degrades the unit

What `_configure` never does, whatever the unit answers and wherever the link is lost. Without
`apply` it only reads. It sets an item just after reading it, where it differs, and a fast output
only on a link that carries it. It saves last, not after an item read back wrong, and in a process
not again when the write of a save is done. A read-back that fails does not hold the save up.
-/

namespace Mtrtk

namespace Sbg

/-- A call with its answer. -/
abbrev AskedCall := (q : Query) × Answer q

/-! ## Port A -/

/-- The baud rate that Port A reports in a call. -/
def AskedCall.baud : AskedCall → Option ℕ
  | ⟨.get item, answer⟩ =>
    match (answer : Except Fault Value) with
    | .ok (.uart uart) => if item.name = uartA then some uart.baud else none
    | _ => none
  | _ => none

/-- The baud rate that Port A reports in a run. -/
def portABaud (l : Asked) : Option ℕ := l.findSome? AskedCall.baud

/-- The link carries the fast outputs : at the rate that Port A reports, or else the link is open
at. -/
def FastEnough (s : Settings) (baud : Option ℕ) : Prop :=
  s.outputHz ≤ fastOutputHz ∨ fastOutputMinBaud ≤ baud.getD s.baud

/-- The baud rate of Port A in a report. -/
def Report.baud (r : Report) : Option ℕ :=
  match r.current.get uartA with
  | some (.uart uart) => some uart.baud
  | _ => none

theorem linkTooSlow_eq_none {r : Report} {s : Settings} :
    linkTooSlow r s = none ↔ FastEnough s r.baud := by
  unfold linkTooSlow FastEnough Report.baud
  by_cases hhz : s.outputHz ≤ fastOutputHz
  · simp [hhz]
  · rw [if_neg hhz]
    rcases r.current.get uartA with _ | _ | _ | _ | _ | _ | _ | _ <;> simp [hhz]

/-! ## One call after another -/

/-- A `set` comes just after the `get` of its item, which it does not match. -/
def SetsAfterGet (x y : AskedCall) : Prop :=
  match y with
  | ⟨.set item want, _⟩ => ∃ current : Value, x = ⟨.get item, .ok current⟩ ∧
      item.target current = some want ∧ same want current = false
  | _ => True

/-- A `set` that the unit does not refuse is read back. What the unit then tells of the item is what
was set, or an event that stays off. -/
def ReadsBack (x y : AskedCall) : Prop :=
  ∀ item want (a : Except Fault Unit), x = ⟨.set item want, a⟩ →
    (∃ e, a = .error (.command e) ∧ e.code.isSome = true) ∨
    ∃ b : Except Fault Value, y = ⟨.get item, b⟩ ∧ ∀ after, b = .ok after →
      same want after = true ∨ isEvent item.name = true ∧ after.isFalse = true

variable {s : Settings} {apply : Bool} {p : Progress} {item : Item} {l : Asked} {d d' : DriverState}
  {r : Option Progress} {items : List Item}

/-- The first call for an item. -/
theorem ItemRun.head? (h : ItemRun s apply p item l r) :
    ∃ a, l.head? = some ⟨.get item, a⟩ := by
  cases h <;> exact ⟨_, rfl⟩

/-- The last call for an item, when the link is not lost. -/
theorem ItemRun.getLast? {p' : Progress} (h : ItemRun s apply p item l (some p')) :
    (∃ a, l.getLast? = some ⟨.get item, a⟩) ∨ ∃ want e, e.code.isSome = true ∧
      l.getLast? = some ⟨.set item want, .error (.command e)⟩ := by
  generalize hr : some p' = r at h
  cases h with
  | lost | setLost => exact nomatch hr
  | unsupported | refused | unchanged | pending => exact Or.inl ⟨_, rfl⟩
  | setRefused _ _ _ e hcode => exact Or.inr ⟨_, e, hcode, rfl⟩
  | set current want _ answer _ p'' _ hback =>
    cases hback with
    | lost => exact nomatch hr
    | refused | applied | unsupported | mismatched => exact Or.inl ⟨_, rfl⟩

theorem LoopRun.head? (h : LoopRun s apply p items l r) (x : AskedCall) (hx : l.head? = some x) :
    ∃ item ∈ items.head?, ∃ a, x = ⟨.get item, a⟩ := by
  cases h with
  | done => exact nomatch hx
  | lost hitem =>
    obtain ⟨a, ha⟩ := hitem.head?
    exact ⟨_, rfl, a, Option.some.inj (hx.symm.trans ha)⟩
  | next hitem hrest =>
    obtain ⟨a, ha⟩ := hitem.head?
    rw [List.head?_append, ha] at hx
    exact ⟨_, rfl, a, (Option.some.inj hx).symm⟩

/-! ## The calls for an item -/

/-- For an item only itself is read and set. -/
theorem ItemRun.calls (h : ItemRun s apply p item l r) : ∀ x ∈ l, (∃ a, x = ⟨.get item, a⟩) ∨
    ∃ current want a, Sets s apply p item current want ∧ x = ⟨.set item want, a⟩ := by
  cases h with
  | lost | unsupported | refused | unchanged | pending =>
    exact List.forall_mem_singleton.2 (Or.inl ⟨_, rfl⟩)
  | setLost current want hsets | setRefused current want hsets =>
    refine List.forall_mem_cons.2 ⟨Or.inl ⟨_, rfl⟩, List.forall_mem_singleton.2 ?_⟩
    exact Or.inr ⟨current, want, _, hsets, rfl⟩
  | set current want hsets answer _ p'' _ hback =>
    refine List.forall_mem_cons.2 ⟨Or.inl ⟨_, rfl⟩, List.forall_mem_cons.2
      ⟨Or.inr ⟨current, want, _, hsets, rfl⟩, ?_⟩⟩
    cases hback <;> exact List.forall_mem_singleton.2 (Or.inl ⟨_, rfl⟩)

theorem ItemRun.setsAfterGet (h : ItemRun s apply p item l r) : l.IsChain SetsAfterGet := by
  cases h with
  | lost | unsupported | refused | unchanged | pending => exact List.isChain_singleton _
  | setLost current want hsets | setRefused current want hsets =>
    exact List.isChain_pair.2 ⟨current, rfl, hsets.target, hsets.differs⟩
  | set current want hsets answer _ p'' _ hback =>
    have hchain : ∀ a : Except Fault Value, List.IsChain SetsAfterGet
        [⟨.get item, .ok current⟩, ⟨.set item want, answer⟩, ⟨.get item, a⟩] := fun a =>
      List.isChain_cons_cons.2 ⟨⟨current, rfl, hsets.target, hsets.differs⟩,
        List.isChain_pair.2 trivial⟩
    cases hback <;> exact hchain _

theorem ReadBackRun.mismatched_eq {current want : Value} {p' : Progress}
    (h : ReadBackRun p item current want l (some p')) :
    p'.report.mismatched = p.report.mismatched ∨
      p'.report.mismatched = p.report.mismatched ++ [item.name] := by
  generalize hr : some p' = r at h
  cases h with
  | lost => exact nomatch hr
  | mismatched =>
    obtain rfl := Option.some.inj hr
    exact Or.inr rfl
  | refused | applied | unsupported =>
    obtain rfl := Option.some.inj hr
    exact Or.inl rfl

/-- A mismatch stays in the report. -/
theorem ItemRun.mismatched_nil {p' : Progress} (h : ItemRun s apply p item l (some p'))
    (hnil : p'.report.mismatched = []) : p.report.mismatched = [] := by
  generalize hr : some p' = r at h
  cases h with
  | lost | setLost => exact nomatch hr
  | unsupported | refused | unchanged =>
    obtain rfl := Option.some.inj hr
    exact hnil
  | pending current want _ _ p'' hreport | setRefused current want _ _ _ p'' hreport =>
    obtain rfl := Option.some.inj hr
    rw [hreport] at hnil
    exact hnil
  | set current want hsets answer _ p'' hreport hback =>
    obtain rfl := hr
    have hback' : p''.report.mismatched = [] := by
      rcases hback.mismatched_eq with heq | heq
      · rw [← heq, hnil]
      · simp [heq] at hnil
    rw [hreport] at hback'
    exact hback'

theorem LoopRun.mismatched_nil {p' : Progress} (h : LoopRun s apply p items l (some p'))
    (hnil : p'.report.mismatched = []) : p.report.mismatched = [] := by
  generalize hr : some p' = r at h
  induction h with
  | done =>
    obtain rfl := Option.some.inj hr
    exact hnil
  | lost => exact nomatch hr
  | next hrun _ ih => exact hrun.mismatched_nil (ih hr)

/-- A `get` is no `set`. -/
theorem readsBack_get (item : Item) (a : Except Fault Value) (y : AskedCall) :
    ReadsBack ⟨.get item, a⟩ y := by
  rintro i w a' ⟨⟩

/-- A `set` that the unit refuses is not read back. -/
theorem readsBack_refused (item : Item) (want : Value) {e : CommandError}
    (hcode : e.code.isSome = true) (y : AskedCall) :
    ReadsBack ⟨.set item want, .error (.command e)⟩ y := by
  rintro i w a ⟨⟩
  exact Or.inl ⟨e, rfl, hcode⟩

/-- An item that is not among the mismatched ones read back as it was set. -/
theorem ItemRun.readsBack (hnil : ∀ p' ∈ r, p'.report.mismatched = [])
    (h : ItemRun s apply p item l r) : l.IsChain ReadsBack := by
  cases h with
  | lost | unsupported | refused | unchanged | pending => exact List.isChain_singleton _
  | setLost | setRefused => exact List.isChain_pair.2 (readsBack_get _ _ _)
  | set current want hsets answer _ p'' hreport hback =>
    refine List.isChain_cons_cons.2 ⟨readsBack_get _ _ _, ?_⟩
    cases hback with
    | lost | refused =>
      refine List.isChain_pair.2 ?_
      rintro i w a ⟨⟩
      exact Or.inr ⟨_, rfl, nofun⟩
    | applied after hsame =>
      refine List.isChain_pair.2 ?_
      rintro i w a ⟨⟩
      exact Or.inr ⟨_, rfl, fun after' hafter => Or.inl (Except.ok.inj hafter ▸ hsame)⟩
    | unsupported after hsame hevent hoff =>
      refine List.isChain_pair.2 ?_
      rintro i w a ⟨⟩
      exact Or.inr ⟨_, rfl, fun after' hafter => Or.inr ⟨hevent, Except.ok.inj hafter ▸ hoff⟩⟩
    | mismatched after => simpa using hnil _ rfl

/-! ## The calls of the loop -/

/-- What relates the calls for an item, and the last call for it to the first for another, relates
all calls of the loop. `Q` is what the rest of the loop tells of the report on the way. -/
theorem LoopRun.isChain {R : AskedCall → AskedCall → Prop} {Q : Progress → Prop}
    (hQ : ∀ p items l, LoopRun s apply p items l r → Q p)
    (hitem : ∀ p item l r, (∀ p' ∈ r, Q p') → ItemRun s apply p item l r → l.IsChain R)
    (hnext : ∀ item ∈ items, ∀ item' ∈ items, item.name ≠ item'.name → ∀ a',
      (∀ a, R ⟨.get item, a⟩ ⟨.get item', a'⟩) ∧ ∀ want e, e.code.isSome = true →
        R ⟨.set item want, .error (.command e)⟩ ⟨.get item', a'⟩)
    (hnodup : (items.map Item.name).Nodup) (h : LoopRun s apply p items l r) : l.IsChain R := by
  induction h with
  | done => exact List.isChain_nil
  | lost hrun => exact hitem _ _ _ _ (by simp) hrun
  | @next p p' item items l l' r hrun hrest ih =>
    obtain ⟨hout, hnodup⟩ := List.nodup_cons.1 hnodup
    have hall := ih hQ
      (fun i hi j hj => hnext i (List.mem_cons_of_mem _ hi) j (List.mem_cons_of_mem _ hj)) hnodup
    have hone := hitem _ _ _ _ (fun p'' hp => Option.some.inj hp ▸ hQ _ _ _ hrest) hrun
    refine List.isChain_append.2 ⟨hone, hall, ?_⟩
    intro x hx y hy
    obtain ⟨item', hitem', a', rfl⟩ := hrest.head? y hy
    have hmem : item' ∈ items := List.mem_of_mem_head? hitem'
    have hne : item.name ≠ item'.name := fun heq => hout (heq ▸ List.mem_map_of_mem hmem)
    obtain ⟨hget, hset⟩ := hnext item List.mem_cons_self item' (List.mem_cons_of_mem _ hmem) hne a'
    rcases hrun.getLast? with ⟨a, hlast⟩ | ⟨want, e, hcode, hlast⟩
    · obtain rfl := Option.some.inj (hlast.symm.trans hx)
      exact hget a
    · obtain rfl := Option.some.inj (hlast.symm.trans hx)
      exact hset want e hcode

theorem LoopRun.setsAfterGet (hnodup : (items.map Item.name).Nodup)
    (h : LoopRun s apply p items l r) : l.IsChain SetsAfterGet :=
  h.isChain (Q := fun _ => True) (fun _ _ _ _ => trivial) (fun _ _ _ _ _ hrun => hrun.setsAfterGet)
    (fun _ _ _ _ _ _ => ⟨fun _ => trivial, fun _ _ _ => trivial⟩) hnodup

theorem LoopRun.readsBack {p' : Progress} (hnodup : (items.map Item.name).Nodup)
    (h : LoopRun s apply p items l (some p')) (hnil : p'.report.mismatched = []) :
    l.IsChain ReadsBack := by
  refine h.isChain (Q := fun p => p.report.mismatched = []) (fun p items l hrun =>
    hrun.mismatched_nil hnil) (fun p item l r hr hrun => hrun.readsBack hr)
    (fun item _ item' _ _ a' => ?_) hnodup
  exact ⟨fun a => readsBack_get _ _ _, fun want e hcode => readsBack_refused _ _ hcode _⟩

/-- The last call of the loop, when the link is not lost. -/
theorem LoopRun.getLast? {p' : Progress} (h : LoopRun s apply p items l (some p')) :
    ∀ x ∈ l.getLast?, (∃ item a, x = ⟨.get item, a⟩) ∨ ∃ item want e, e.code.isSome = true ∧
      x = ⟨.set item want, .error (.command e)⟩ := by
  generalize hr : some p' = r at h
  induction h with
  | done => simp
  | lost => exact nomatch hr
  | next hrun _ ih =>
    intro x hx
    rw [List.getLast?_append] at hx
    rcases Option.or_eq_some_iff.1 hx with hx | ⟨-, hx⟩
    · exact ih hr x hx
    · rcases hrun.getLast? with ⟨a, hlast⟩ | ⟨want, e, hcode, hlast⟩
      · exact Or.inl ⟨_, a, Option.some.inj (hx.symm.trans hlast)⟩
      · exact Or.inr ⟨_, want, e, hcode, Option.some.inj (hx.symm.trans hlast)⟩

/-- Before a save nothing is set that is not read back. -/
theorem LoopRun.readsBack_save {p' : Progress} (hnodup : (items.map Item.name).Nodup)
    (h : LoopRun s apply p items l (some p')) (hnil : p'.report.mismatched = [])
    (a : Except Fault Unit) : (l ++ [(⟨.save, a⟩ : AskedCall)]).IsChain ReadsBack := by
  refine List.isChain_append.2 ⟨h.readsBack hnodup hnil, List.isChain_singleton _,
    fun x hx y _ => ?_⟩
  rcases h.getLast? x hx with ⟨item, a', rfl⟩ | ⟨item, want, e, hcode, rfl⟩
  · exact readsBack_get _ _ _
  · exact readsBack_refused _ _ hcode _

/-- What is read of another item does not change what is known of Port A. -/
theorem baud_read (hne : item.name ≠ uartA) (v : Value) :
    (p.read item v).report.baud = p.report.baud := by
  simp only [Report.baud, Progress.read, Dict.get_set, if_neg hne]

theorem ReadBackRun.baud {current want : Value} {p' : Progress} (hne : item.name ≠ uartA)
    (h : ReadBackRun p item current want l (some p')) : p'.report.baud = p.report.baud := by
  generalize hr : some p' = r at h
  cases h with
  | lost => exact nomatch hr
  | refused =>
    obtain rfl := Option.some.inj hr
    rfl
  | applied after | unsupported after | mismatched after =>
    obtain rfl := Option.some.inj hr
    exact baud_read hne after

theorem ItemRun.baud {p' : Progress} (hne : item.name ≠ uartA)
    (h : ItemRun s apply p item l (some p')) : p'.report.baud = p.report.baud := by
  generalize hr : some p' = r at h
  cases h with
  | lost | setLost => exact nomatch hr
  | unsupported | refused =>
    obtain rfl := Option.some.inj hr
    rfl
  | unchanged current =>
    obtain rfl := Option.some.inj hr
    exact baud_read hne current
  | pending current want _ _ p'' hreport | setRefused current want _ _ _ p'' hreport =>
    obtain rfl := Option.some.inj hr
    rw [hreport]
    exact baud_read hne current
  | set current want _ answer _ p'' hreport hback =>
    obtain rfl := hr
    rw [hback.baud hne, hreport]
    exact baud_read hne current

/-- A call of the loop : an item is read, or is set where it may be. -/
def LoopCall (s : Settings) (apply : Bool) (baud : Option ℕ) (items : List Item) (x : AskedCall) :
    Prop :=
  (∃ item ∈ items, ∃ a, x = ⟨.get item, a⟩) ∨ ∃ item ∈ items, ∃ want a, x = ⟨.set item want, a⟩ ∧
    apply = true ∧ item.writable = true ∧ (item.fast = true → FastEnough s baud)

theorem LoopCall.mono {baud : Option ℕ} {items' : List Item} {x : AskedCall}
    (h : LoopCall s apply baud items x) (hsub : items ⊆ items') :
    LoopCall s apply baud items' x := by
  rcases h with ⟨item, hmem, h⟩ | ⟨item, hmem, h⟩
  · exact Or.inl ⟨item, hsub hmem, h⟩
  · exact Or.inr ⟨item, hsub hmem, h⟩

theorem ItemRun.loopCall (hne : item.name ≠ uartA) (h : ItemRun s apply p item l r) :
    ∀ x ∈ l, LoopCall s apply p.report.baud [item] x := by
  intro x hx
  rcases h.calls x hx with ⟨a, rfl⟩ | ⟨current, want, a, hsets, rfl⟩
  · exact Or.inl ⟨item, List.mem_singleton_self _, a, rfl⟩
  · refine Or.inr ⟨item, List.mem_singleton_self _, want, a, rfl, hsets.apply, hsets.writable, ?_⟩
    intro hfast
    rw [← baud_read hne current]
    exact linkTooSlow_eq_none.1 (hsets.fast hfast)

/-- Port A is not among the items of the loop. -/
theorem LoopRun.loopCall (hport : ∀ item ∈ items, item.name ≠ uartA)
    (h : LoopRun s apply p items l r) : (∀ x ∈ l, LoopCall s apply p.report.baud items x) ∧
      ∀ p' ∈ r, p'.report.baud = p.report.baud := by
  induction h with
  | done p => exact ⟨by simp, fun p' hp => Option.some.inj hp ▸ rfl⟩
  | lost hrun =>
    obtain ⟨hne, -⟩ := List.forall_mem_cons.1 hport
    exact ⟨fun x hx => (hrun.loopCall hne x hx).mono (by simp), by simp⟩
  | next hrun hrest ih =>
    obtain ⟨hne, hport⟩ := List.forall_mem_cons.1 hport
    obtain ⟨hcalls, hbaud⟩ := ih hport
    rw [hrun.baud hne] at hcalls hbaud
    refine ⟨fun x hx => ?_, hbaud⟩
    rcases List.mem_append.1 hx with hx | hx
    · exact (hrun.loopCall hne x hx).mono (by simp)
    · exact (hcalls x hx).mono (List.subset_cons_self _ _)

/-! ## The items of a profile -/

/-- The item of Port A's baud rate. -/
def uartItem : Item := ⟨uartA, uartConf, [0], false, fun _ => none, false, false⟩

theorem items_eq {today : ℕ} {is : List Item} (h : Sbg.items today s = .ok is) :
    ∃ nav axes, is = uartItems s ++ (defaultOutputs nav s.rawGnss).map outputItem ++
      nmeaClasses.map classItem ++ unitItems today axes s := by
  unfold Sbg.items at h
  cases hmode : hzToMode.get s.outputHz with
  | none =>
    rw [hmode] at h
    exact nomatch h
  | some nav =>
    rw [hmode] at h
    cases haxes : s.imuAxes with
    | error text =>
      rw [haxes] at h
      exact nomatch h
    | ok axes =>
      rw [haxes] at h
      exact ⟨nav, axes, (Except.ok.inj h).symm⟩

/-- The names of the items do not repeat. -/
theorem nodup_items {today : ℕ} {is : List Item} (h : Sbg.items today s = .ok is) :
    (is.map Item.name).Nodup := by
  obtain ⟨nav, axes, rfl⟩ := items_eq h
  have hnames : (uartItems s ++ (defaultOutputs nav s.rawGnss).map outputItem ++
      nmeaClasses.map classItem ++ unitItems today axes s).map Item.name =
        (uartA :: if s.rtcmPort then [uartB] else []) ++
          (defaultOutputs 0 true).map (fun o => "output:" ++ o.1) ++
            nmeaClasses.map (fun c => "class:" ++ c.1) ++
              ["motion_profile", "gnss_installation", "imu_alignment", "aiding_assignment",
                "init_position"] := by
    simp only [List.map_append, List.map_map, uartItems]
    cases s.rtcmPort <;> rfl
  rw [hnames]
  cases s.rtcmPort <;> decide +kernel

/-- Port A is read first. -/
theorem items_head {today : ℕ} {is : List Item} (h : Sbg.items today s = .ok is) :
    ∃ rest, is = uartItem :: rest ∧ ∀ item ∈ rest, item.name ≠ uartA := by
  have hnodup := nodup_items h
  obtain ⟨nav, axes, rfl⟩ := items_eq h
  refine ⟨_, rfl, fun item hmem heq => ?_⟩
  have hname := List.mem_map_of_mem (f := Item.name) hmem
  rw [heq] at hname
  exact (List.nodup_cons.1 hnodup).1 hname

/-- How long the selectors of a command are. -/
def selectorLength (cmd : Command) : ℕ :=
  if cmd = uartConf then 1 else if cmd = outputConf then 3 else if cmd = outputClassEnable then 2 else 0

/-- The unit is asked for the items of one command with selectors of one length. -/
theorem length_selector {today : ℕ} {is : List Item} (h : Sbg.items today s = .ok is) :
    ∀ i ∈ is, i.selector.length = selectorLength i.command := by
  obtain ⟨nav, axes, rfl⟩ := items_eq h
  intro i hi
  simp only [List.mem_append, List.mem_map] at hi
  rcases hi with ((hi | ⟨o, -, rfl⟩) | ⟨c, -, rfl⟩) | hi
  · unfold uartItems at hi
    rcases List.mem_cons.1 hi with rfl | hi
    · rfl
    · split at hi
      · obtain rfl := List.mem_singleton.1 hi
        rfl
      · exact absurd hi List.not_mem_nil
  · rfl
  · rfl
  · simp only [unitItems, List.mem_cons, List.not_mem_nil, or_false] at hi
    rcases hi with rfl | rfl | rfl | rfl | rfl <;> rfl

/-- Port A is read, and the report tells what it told. -/
theorem ItemRun.uart (h : ItemRun s apply p uartItem l r) (hnone : p.report.baud = none) :
    (∃ a, l = [⟨.get uartItem, a⟩]) ∧ ∀ p' ∈ r, p'.report.baud = portABaud l := by
  cases h with
  | lost sent => exact ⟨⟨_, rfl⟩, by simp⟩
  | unsupported e | refused e =>
    refine ⟨⟨_, rfl⟩, fun p' hp => ?_⟩
    obtain rfl := Option.some.inj hp
    exact hnone
  | unchanged current =>
    refine ⟨⟨_, rfl⟩, fun p' hp => ?_⟩
    obtain rfl := Option.some.inj hp
    have hget : (p.read uartItem current).report.current.get uartA = some current :=
      (Dict.get_set _ _ _ _).trans (if_pos rfl)
    change Report.baud (p.read uartItem current).report = _
    rw [Report.baud, hget]
    cases current <;> rfl
  | pending _ _ htarget => exact nomatch htarget
  | setLost _ _ hsets => exact nomatch hsets.target
  | setRefused _ _ hsets => exact nomatch hsets.target
  | set _ _ hsets => exact nomatch hsets.target

/-! ## The run of `_configure` -/

/-- The report at the start of the loop. -/
def started (serial : ℕ) : Progress := { report := { serial := some serial } }

/-- The runs of `_configure` by how far they come. -/
inductive ConfigureRun (today : ℕ) (s : Settings) (apply : Bool) (d : DriverState) :
    Asked → Option Report → DriverState → Prop
  | lost (written : Written) :
      ConfigureRun today s apply d [⟨.info, .error (.linkLost written)⟩] none d
  | silent (e : CommandError) (d' : DriverState) (hd : d'.savedThisRun = d.savedThisRun) :
      ConfigureRun today s apply d [⟨.info, .error (.command e)⟩]
        (some (Report.fail {} ("info: " ++ e.text))) d'
  | noProfile (serial : ℕ) (text : String) (hitems : Sbg.items today s = .error text) (p : Progress)
      (hp : p.report = (started serial).report.fail ("profile: " ++ text)) {l r d'}
      (h : ConcludeRun s apply serial p d l r d') :
      ConfigureRun today s apply d (⟨.info, .ok serial⟩ :: l) r d'
  | broken (serial : ℕ) (is : List Item) (hitems : Sbg.items today s = .ok is) {l}
      (h : LoopRun s apply (started serial) is l none) :
      ConfigureRun today s apply d (⟨.info, .ok serial⟩ :: l) none d
  | concluded (serial : ℕ) (is : List Item) (hitems : Sbg.items today s = .ok is) {l l' p r d'}
      (h : LoopRun s apply (started serial) is l (some p))
      (hend : ConcludeRun s apply serial p d l' r d') :
      ConfigureRun today s apply d (⟨.info, .ok serial⟩ :: (l ++ l')) r d'

variable {today : ℕ} {report : Option Report}

theorem configureRun (h : Configured (configure today s apply) d l report d') :
    ConfigureRun today s apply d l report d' := by
  obtain ⟨l₁, l₂, answer, u, hinfo, hrest, rfl⟩ := Co.runs_bind.1 h
  obtain ⟨rfl, rfl⟩ := configured_ask.1 hinfo
  clear h hinfo
  match answer with
  | .error (.linkLost written) =>
    obtain ⟨rfl, rfl, rfl⟩ := Co.runs_pure.1 hrest
    exact .lost written
  | .error (.command e) =>
    obtain ⟨rfl, rfl, hd⟩ := publishRun hrest
    exact .silent e d' hd
  | .ok serial =>
    dsimp only at hrest
    cases hitems : Sbg.items today s with
    | error text =>
      rw [hitems] at hrest
      exact .noProfile serial text hitems _ rfl (concludeRun hrest)
    | ok is =>
      rw [hitems] at hrest
      obtain ⟨l₁, l₃, last, u, hloop, hend, rfl⟩ := Co.runs_bind.1 hrest
      obtain ⟨rfl, hrun⟩ := loopRun hloop
      clear hloop hrest
      cases last with
      | none =>
        obtain ⟨rfl, rfl, rfl⟩ := Co.runs_pure.1 hend
        rw [List.append_nil]
        exact .broken serial is hitems hrun
      | some p =>
        change ConfigureRun today s apply u (⟨.info, .ok serial⟩ :: (l₁ ++ l₃)) report d'
        exact .concluded serial is hitems hrun (concludeRun hend)

/-- What a run of `_configure` does to the unit and to the driver. -/
structure Safe (today : ℕ) (s : Settings) (apply : Bool) (d : DriverState) (l : Asked)
    (d' : DriverState) : Prop where
  /-- Without `apply` it only reads. -/
  reads : apply = false → ∀ x ∈ l, x.1 = .info ∨ ∃ item, x.1 = .get item
  /-- What is set is an item of the profile, and a fast output only where the link carries it. -/
  sets : ∀ item want (a : Except Fault Unit), (⟨.set item want, a⟩ : AskedCall) ∈ l →
    item.writable = true ∧ (∃ is, Sbg.items today s = .ok is ∧ item ∈ is) ∧
      (item.fast = true → FastEnough s (portABaud l))
  order : l.IsChain SetsAfterGet
  /-- It is saved last, where that is allowed, and where what was set is read back, and agrees. -/
  save : ∀ a : Except Fault Unit, (⟨.save, a⟩ : AskedCall) ∈ l →
    (∃ l₀, l = l₀ ++ [⟨.save, a⟩] ∧ ∀ x ∈ l₀, x.1 ≠ .save) ∧ s.applyConfig = true ∧
      d.savedThisRun = false ∧ FastEnough s (portABaud l) ∧ l.IsChain ReadsBack
  saved : d'.savedThisRun = true ↔ d.savedThisRun = true ∨
    ∃ a : Except Fault Unit, (⟨.save, a⟩ : AskedCall) ∈ l ∧ SaveWritten a

/-- A run without sets, and without a save. -/
theorem Safe.of_info {a : Except Fault ℕ} (hd : d'.savedThisRun = d.savedThisRun) :
    Safe today s apply d [⟨.info, a⟩] d' where
  reads _ := List.forall_mem_singleton.2 (Or.inl rfl)
  sets item want a h := by simp at h
  order := List.isChain_singleton _
  save a h := by simp at h
  saved := by simp [hd]

/-- How the run ends behind the loop. -/
def Ends (s : Settings) (apply : Bool) (d d' : DriverState) (loop last : Asked) : Prop :=
  last = [] ∧ d'.savedThisRun = d.savedThisRun ∨ ∃ a : Except Fault Unit, last = [⟨.save, a⟩] ∧
    apply = true ∧ s.applyConfig = true ∧ d.savedThisRun = false ∧ FastEnough s (portABaud loop) ∧
      (loop ++ last).IsChain ReadsBack ∧ (d'.savedThisRun = true ↔ SaveWritten a)

/-- What a run makes of the loop and of what comes behind it. -/
theorem Safe.of_loop {serial : ℕ} {loop last : Asked} {is : List Item}
    (hloop : ∀ x ∈ loop, LoopCall s apply (portABaud loop) is x)
    (hitems : loop ≠ [] → Sbg.items today s = .ok is) (hchain : loop.IsChain SetsAfterGet)
    (hhead : ∀ x ∈ loop.head?, ∃ item a, x = ⟨.get item, a⟩) (hlast : Ends s apply d d' loop last) :
    Safe today s apply d (⟨.info, .ok serial⟩ :: (loop ++ last)) d' := by
  have hlastCall : ∀ x ∈ last, x.1 = .save ∧ apply = true := by
    intro x hx
    rcases hlast with ⟨rfl, -⟩ | ⟨a, rfl, happly, -⟩
    · exact absurd hx List.not_mem_nil
    · rw [List.mem_singleton.1 hx]
      exact ⟨rfl, happly⟩
  have hports : portABaud (⟨.info, .ok serial⟩ :: (loop ++ last)) = portABaud loop := by
    have hnone : last.findSome? AskedCall.baud = none := by
      rcases hlast with ⟨rfl, -⟩ | ⟨a, rfl, -⟩ <;> rfl
    rw [portABaud, List.findSome?_cons, List.findSome?_append, hnone, Option.or_none]
    rfl
  have hsets : ∀ item want (a : Except Fault Unit),
      (⟨.set item want, a⟩ : AskedCall) ∈ (⟨.info, .ok serial⟩ :: (loop ++ last) : Asked) →
        (⟨.set item want, a⟩ : AskedCall) ∈ loop := by
    intro item want a hmem
    rcases List.mem_cons.1 hmem with heq | hmem
    · exact nomatch heq
    · rcases List.mem_append.1 hmem with hmem | hmem
      · exact hmem
      · exact nomatch (hlastCall _ hmem).1
  have hsaves : ∀ a : Except Fault Unit, (⟨.save, a⟩ : AskedCall) ∉ loop := by
    intro a hmem
    rcases hloop _ hmem with ⟨_, -, _, heq⟩ | ⟨_, -, _, _, heq, -⟩ <;> exact nomatch heq
  refine ⟨?_, ?_, ?_, ?_, ?_⟩
  · rintro rfl x hx
    rcases List.mem_cons.1 hx with rfl | hx
    · exact Or.inl rfl
    · rcases List.mem_append.1 hx with hx | hx
      · rcases hloop x hx with ⟨item, -, a, rfl⟩ | ⟨_, -, _, _, -, happly, -⟩
        · exact Or.inr ⟨item, rfl⟩
        · exact nomatch happly
      · exact nomatch (hlastCall x hx).2
  · intro item want a hmem
    have hmem := hsets item want a hmem
    rcases hloop _ hmem with ⟨_, -, _, heq⟩ | ⟨item', hitem, want', a', heq, -, hwritable, hfast⟩
    · exact nomatch heq
    · obtain ⟨rfl, rfl⟩ := Query.set.inj (Sigma.mk.inj heq).1
      rw [hports]
      exact ⟨hwritable, ⟨is, hitems (List.ne_nil_of_mem hmem), hitem⟩, hfast⟩
  · refine List.isChain_cons.2 ⟨fun y hy => ?_, List.isChain_append.2 ⟨hchain, ?_, fun x _ y hy => ?_⟩⟩
    · rw [List.head?_append] at hy
      rcases Option.or_eq_some_iff.1 hy with hy | ⟨-, hy⟩
      · obtain ⟨item, a, rfl⟩ := hhead y hy
        trivial
      · obtain ⟨q, a⟩ := y
        obtain rfl : q = .save := (hlastCall _ (List.mem_of_mem_head? hy)).1
        trivial
    · rcases hlast with ⟨rfl, -⟩ | ⟨a, rfl, -⟩
      · exact List.isChain_nil
      · exact List.isChain_singleton _
    · obtain ⟨q, a⟩ := y
      obtain rfl : q = .save := (hlastCall _ (List.mem_of_mem_head? hy)).1
      trivial
  · intro a hmem
    rcases hlast with ⟨rfl, -⟩ | ⟨a', rfl, -, hconfig, hunsaved, hfast, hback, -⟩
    · rw [List.append_nil] at hmem
      rcases List.mem_cons.1 hmem with heq | hmem
      · exact nomatch heq
      · exact absurd hmem (hsaves a)
    · obtain rfl : a = a' := by
        rcases List.mem_cons.1 hmem with heq | hmem
        · exact nomatch heq
        · rcases List.mem_append.1 hmem with hmem | hmem
          · exact absurd hmem (hsaves a)
          · simpa using hmem
      refine ⟨⟨⟨.info, .ok serial⟩ :: loop, rfl, ?_⟩, hconfig, hunsaved, hports ▸ hfast, ?_⟩
      · refine List.forall_mem_cons.2 ⟨nofun, fun x hx heq => ?_⟩
        obtain ⟨q, b⟩ := x
        obtain rfl : q = .save := heq
        exact hsaves b hx
      · refine List.isChain_cons.2 ⟨?_, hback⟩
        rintro y - item want b ⟨⟩
  · rcases hlast with ⟨rfl, hd⟩ | ⟨a, rfl, -, -, hunsaved, -, -, hd⟩
    · rw [hd]
      refine ⟨Or.inl, fun h => h.resolve_right ?_⟩
      rintro ⟨a, hmem, -⟩
      rw [List.append_nil] at hmem
      rcases List.mem_cons.1 hmem with heq | hmem
      · exact nomatch heq
      · exact hsaves a hmem
    · rw [hd, hunsaved]
      refine ⟨fun hsent => Or.inr ⟨a, by simp, hsent⟩, ?_⟩
      rintro (hfalse | ⟨a', hmem, hsent⟩)
      · exact nomatch hfalse
      · rcases List.mem_cons.1 hmem with heq | hmem
        · exact nomatch heq
        · rcases List.mem_append.1 hmem with hmem | hmem
          · exact absurd hmem (hsaves a')
          · obtain rfl : a' = a := by simpa using hmem
            exact hsent

/-- Port A is read first, so the loop knows what it tells. -/
theorem LoopRun.port {serial : ℕ} {is : List Item} (hitems : Sbg.items today s = .ok is)
    (h : LoopRun s apply (started serial) is l r) :
    (∀ x ∈ l, LoopCall s apply (portABaud l) is x) ∧ ∀ p' ∈ r, p'.report.baud = portABaud l := by
  obtain ⟨rest, rfl, hport⟩ := items_head hitems
  cases h with
  | lost hrun =>
    obtain ⟨⟨a, rfl⟩, -⟩ := hrun.uart rfl
    exact ⟨List.forall_mem_singleton.2 (Or.inl ⟨_, List.mem_cons_self, a, rfl⟩), by simp⟩
  | @next _ p' _ _ l l' _ hrun hrest =>
    obtain ⟨⟨a, rfl⟩, hbaud⟩ := hrun.uart rfl
    obtain ⟨hcalls, hsame⟩ := hrest.loopCall hport
    -- nothing else tells a baud rate of Port A
    have hnone : l'.findSome? AskedCall.baud = none := by
      refine List.findSome?_eq_none_iff.2 fun x hx => ?_
      rcases hcalls x hx with ⟨item, hmem, a, rfl⟩ | ⟨item, hmem, want, a, rfl, -⟩
      · simp only [AskedCall.baud, hport item hmem, if_false]
        split <;> rfl
      · rfl
    have hports : portABaud ([⟨.get uartItem, a⟩] ++ l') = p'.report.baud := by
      rw [hbaud p' rfl, portABaud, List.findSome?_append, hnone, Option.or_none]
      rfl
    rw [hports]
    refine ⟨fun x hx => ?_, fun p'' hp => hsame p'' hp⟩
    rcases List.mem_append.1 hx with hx | hx
    · exact Or.inl ⟨_, List.mem_cons_self, a, List.mem_singleton.1 hx⟩
    · exact (hcalls x hx).mono (List.subset_cons_self _ _)

/-- Whatever the unit answers, and wherever the link is lost. -/
theorem configure_safe (h : Configured (configure today s apply) d l report d') :
    Safe today s apply d l d' := by
  have hhead : ∀ {is : List Item} {p : Progress} {l : Asked} {r},
      LoopRun s apply p is l r → ∀ x ∈ l.head?, ∃ item a, x = ⟨.get item, a⟩ := by
    intro is p l r hrun x hx
    obtain ⟨item, -, a, rfl⟩ := hrun.head? x hx
    exact ⟨item, a, rfl⟩
  cases configureRun h with
  | lost => exact .of_info rfl
  | silent _ _ hd => exact .of_info hd
  | noProfile serial text hitems p hp hend =>
    have hloop : ∀ {last : Asked}, Ends s apply d d' [] last →
        Safe today s apply d (⟨.info, .ok serial⟩ :: ([] ++ last)) d' := fun hlast =>
      Safe.of_loop (by simp : ∀ x ∈ ([] : Asked), LoopCall s apply _ [] x) (fun hne => absurd rfl hne)
        List.isChain_nil (by simp) hlast
    cases hend with
    | unsaved _ _ _ hd => exact hloop (Or.inl ⟨rfl, hd⟩)
    | saved hsaves a _ _ _ hd =>
      refine hloop (Or.inr ⟨a, rfl, hsaves.apply, hsaves.applyConfig, hsaves.unsaved, ?_,
        List.isChain_singleton _, hd⟩)
      have hfast := linkTooSlow_eq_none.1 hsaves.link
      rwa [hp] at hfast
  | broken serial is hitems hrun =>
    rw [← List.append_nil (_ :: _), List.cons_append]
    exact .of_loop (hrun.port hitems).1 (fun _ => hitems) (hrun.setsAfterGet (nodup_items hitems))
      (hhead hrun) (Or.inl ⟨rfl, rfl⟩)
  | concluded serial is hitems hrun hend =>
    refine .of_loop (hrun.port hitems).1 (fun _ => hitems)
      (hrun.setsAfterGet (nodup_items hitems)) (hhead hrun) ?_
    cases hend with
    | unsaved _ _ _ hd => exact Or.inl ⟨rfl, hd⟩
    | saved hsaves a _ _ _ hd =>
      refine Or.inr ⟨a, rfl, hsaves.apply, hsaves.applyConfig, hsaves.unsaved, ?_,
        hrun.readsBack_save (nodup_items hitems) hsaves.matched a, hd⟩
      rw [← (hrun.port hitems).2 _ rfl]
      exact linkTooSlow_eq_none.1 hsaves.link

/-- A unit where every item is as the profile wants it. -/
def wantedAnswers (save : Except Fault Unit) : (q : Query) → Answer q
  | .info => .ok 7
  | .get item => .ok ((item.target (.mode 0)).getD (.mode 0))
  | .set _ _ => .ok ()
  | .save => save

/-- A forced apply to that unit, where an earlier one is in its RAM only. -/
def savingRun (save : Except Fault Unit) (d : DriverState) : Asked × Option Report × DriverState :=
  (configure 0 { applyConfig := true } true).answered (wantedAnswers save) d

theorem configured_savingRun (save : Except Fault Unit) (d : DriverState) :
    Configured (configure 0 { applyConfig := true } true) d (savingRun save d).1
      (savingRun save d).2.1 (savingRun save d).2.2 :=
  Co.runs_answered (wantedAnswers save) (fun _ _ => rfl) _ _

/-- A unit that takes nothing, and reports 0 of everything. -/
def zeroAnswers : (q : Query) → Answer q
  | .info => .ok 7
  | .get _ => .ok (.mode 0)
  | .set _ _ => .ok ()
  | .save => .ok ()

/-- A forced apply to that unit. -/
def zeroRun : Asked × Option Report × DriverState :=
  (configure 0 { applyConfig := true } true).answered zeroAnswers {}

theorem configured_zeroRun : Configured (configure 0 { applyConfig := true } true) {} zeroRun.1
    zeroRun.2.1 zeroRun.2.2 :=
  Co.runs_answered zeroAnswers (fun _ _ => rfl) _ _

theorem configure_safe_saved :
    Safe 0 { applyConfig := true } true {} zeroRun.1 zeroRun.2.2 ∧
      Safe 0 { applyConfig := true } true { ramOnly := [7] }
        (savingRun (.ok ()) { ramOnly := [7] }).1 (savingRun (.ok ()) { ramOnly := [7] }).2.2 ∧
      (savingRun (.ok ()) { ramOnly := [7] }).1.getLast? = some ⟨.save, .ok ()⟩ :=
  ⟨configure_safe configured_zeroRun, configure_safe (configured_savingRun _ _), rfl⟩

/-! ## A process -/

/-- Runs of one process, one after the other. What else it keeps may change between them. -/
inductive Process : DriverState → List Asked → DriverState → Prop
  | nil (d : DriverState) : Process d [] d
  | cons {today : ℕ} {s : Settings} {apply : Bool} {d d' e d'' : DriverState} {l : Asked}
      {ls : List Asked} {report : Option Report}
      (h : Configured (configure today s apply) d l report d')
      (he : e.savedThisRun = d'.savedThisRun) (hrest : Process e ls d'') : Process d (l :: ls) d''

/-- No save follows one whose write is done. -/
def NoSaveAfter (x y : AskedCall) : Prop :=
  ∀ a : Except Fault Unit, x = ⟨.save, a⟩ → SaveWritten a → y.1 ≠ .save

/-- In a run the save is the last call, and there is none after one in an earlier run. -/
theorem Safe.noSaveAfter (h : Safe today s apply d l d') : l.Pairwise NoSaveAfter ∧
    (d.savedThisRun = true → ∀ x ∈ l, x.1 ≠ .save) := by
  by_cases hsave : ∃ a : Except Fault Unit, (⟨.save, a⟩ : AskedCall) ∈ l
  · obtain ⟨a, hmem⟩ := hsave
    obtain ⟨⟨l₀, rfl, hnone⟩, -, hunsaved, -⟩ := h.save a hmem
    refine ⟨List.pairwise_append.2 ⟨?_, List.pairwise_singleton _ _, ?_⟩, fun hd => ?_⟩
    · exact List.pairwise_of_forall_mem_list fun x _ y hy a' _ _ => hnone y hy
    · rintro x hx y - a' rfl
      exact absurd rfl (hnone _ hx)
    · simp [hunsaved] at hd
  · have hnone : ∀ x ∈ l, x.1 ≠ .save := by
      rintro ⟨q, a⟩ hx rfl
      exact hsave ⟨a, hx⟩
    exact ⟨List.pairwise_of_forall_mem_list fun x _ y hy a' _ _ => hnone y hy, fun _ => hnone⟩

/-- In a process no save follows one whose write is done, whatever happens in it. -/
theorem save_once {ls : List Asked} (h : Process d ls d') :
    ls.flatten.Pairwise NoSaveAfter ∧ (d.savedThisRun = true → ∀ x ∈ ls.flatten, x.1 ≠ .save) := by
  induction h with
  | nil d => simp
  | @cons today s apply d d' e d'' l ls report hrun he _ ih =>
    have hsafe := configure_safe hrun
    obtain ⟨hpairwise, hnone⟩ := hsafe.noSaveAfter
    obtain ⟨hrest, hrestNone⟩ := ih
    rw [List.flatten_cons]
    refine ⟨List.pairwise_append.2 ⟨hpairwise, hrest, ?_⟩, fun hd x hx => ?_⟩
    · rintro x hx y hy a rfl hwritten
      exact hrestNone (he.trans (hsafe.saved.2 (Or.inr ⟨a, hx, hwritten⟩))) y hy
    · rcases List.mem_append.1 hx with hx | hx
      · exact hnone hd x hx
      · exact hrestNone (he.trans (hsafe.saved.2 (Or.inl hd))) x hx

/-- The write of the first save stalls, so there is a second one, and no third. -/
theorem save_once_stalled :
    let stalled := savingRun (.error (.linkLost .stalled)) { ramOnly := [7] }
    let saved := savingRun (.ok ()) stalled.2.2
    let again := savingRun (.ok ()) { saved.2.2 with ramOnly := [7] }
    [stalled.1, saved.1, again.1].flatten.Pairwise NoSaveAfter ∧
      stalled.1.getLast? = some ⟨.save, .error (.linkLost .stalled)⟩ ∧
      saved.1.getLast? = some ⟨.save, .ok ()⟩ :=
  ⟨(save_once (.cons (configured_savingRun _ _) rfl (.cons (configured_savingRun _ _) rfl
    (.cons (configured_savingRun _ _) rfl (.nil _))))).1, rfl, rfl⟩

/-! ## The report -/

/-- What is in a report : nothing where the unit does not tell what it is, or there is no profile for
it. Else every item of the profile is in just one list, or has failed with an error of its own. -/
inductive Filed (today : ℕ) (s : Settings) (l : Asked) (report : Report) : Prop
  | silent (e : CommandError) (hl : l = [⟨.info, .error (.command e)⟩])
      (hfiled : report.filed = []) (herrors : report.errors = ["info: " ++ e.text])
  | noProfile (serial : ℕ) (text : String) (hinfo : l.head? = some ⟨.info, .ok serial⟩)
      (hitems : Sbg.items today s = .error text) (hfiled : report.filed = [])
      (herrors : ["profile: " ++ text] <+: report.errors)
  | items (serial : ℕ) (is : List Item) (hinfo : l.head? = some ⟨.info, .ok serial⟩)
      (hitems : Sbg.items today s = .ok is) (failed : List (Item × String))
      (hfiled : (report.filed ++ failed.map fun f => f.1.name).Perm (is.map Item.name))
      (herrors : (failed.map fun f => f.1.name ++ ": " ++ f.2) <+: report.errors)

theorem ConcludeRun.extends {serial : ℕ} {report : Report}
    (h : ConcludeRun s apply serial p d l (some report) d') : report.Extends p.report := by
  generalize hr : some report = r at h
  cases h with
  | unsaved report' hreport => exact Option.some.inj hr ▸ hreport
  | saved _ _ _ hreport => exact hreport report hr.symm

/-- `CMD["INFO"]`. -/
def infoCommand : Command := ⟨4, by decide⟩

/-- The request of a call. `payload` is `struct.pack` of a value. -/
def Query.request (payload : Item → Value → List UInt8) : Query → Request
  | .info => .get infoCommand []
  | .get item => .get item.command item.selector
  | .set item want => .set item.command (payload item want)
  | .save => .set ⟨settingsAction, by decide⟩ [1]

/-- The unit answered the call, and did not refuse it. -/
def AskedCall.Answered : AskedCall → Outcome → Prop
  | ⟨.info, answer⟩, outcome => (∃ v, (answer : Except Fault ℕ) = .ok v) ∧ ∃ bytes, outcome = .reply bytes
  | ⟨.get _, answer⟩, outcome =>
    (∃ v, (answer : Except Fault Value) = .ok v) ∧ ∃ bytes, outcome = .reply bytes
  | ⟨.set _ _, answer⟩, outcome => (answer : Except Fault Unit) = .ok () ∧ outcome = .acked
  | ⟨.save, answer⟩, outcome => (answer : Except Fault Unit) = .ok () ∧ outcome = .acked

/-- A late answer to the call is not taken for that to the next. -/
def NextApart (payload : Item → Value → List UInt8) (x y : AskedCall) : Prop :=
  ∀ outcome, x.Answered outcome → Apart (x.1.request payload) outcome (y.1.request payload)

variable {payload : Item → Value → List UInt8}

theorem nextApart_get_set (item item' : Item) (want : Value) (a : Except Fault Value)
    (a' : Except Fault Unit) : NextApart payload ⟨.get item, a⟩ ⟨.set item' want, a'⟩ := by
  rintro outcome ⟨-, bytes, rfl⟩
  exact Or.inr trivial

theorem nextApart_set_get (item item' : Item) (want : Value) (a : Except Fault Unit)
    (a' : Except Fault Value) : NextApart payload ⟨.set item want, a⟩ ⟨.get item', a'⟩ := by
  rintro outcome ⟨-, rfl⟩
  exact Or.inr trivial

theorem ItemRun.nextApart (h : ItemRun s apply p item l r) : l.IsChain (NextApart payload) := by
  cases h with
  | lost | unsupported | refused | unchanged | pending => exact List.isChain_singleton _
  | setLost | setRefused => exact List.isChain_pair.2 (nextApart_get_set _ _ _ _ _)
  | set current want _ answer _ p'' _ hback =>
    have hchain : ∀ a : Except Fault Value, List.IsChain (NextApart payload)
        [⟨.get item, .ok current⟩, ⟨.set item want, answer⟩, ⟨.get item, a⟩] := fun a =>
      List.isChain_cons_cons.2 ⟨nextApart_get_set _ _ _ _ _,
        List.isChain_pair.2 (nextApart_set_get _ _ _ _ _)⟩
    cases hback <;> exact hchain _

theorem LoopRun.nextApart {is : List Item} (hitems : Sbg.items today s = .ok is)
    (h : LoopRun s apply p is l r) : l.IsChain (NextApart payload) := by
  refine h.isChain (Q := fun _ => True) (fun _ _ _ _ => trivial) (fun _ _ _ _ _ hrun => hrun.nextApart)
    (fun item hmem item' hmem' _ a' => ⟨fun a => ?_, fun want e _ => ?_⟩) (nodup_items hitems)
  · rintro outcome ⟨-, bytes, rfl⟩
    by_cases hsame : item.command = item'.command
    · refine Or.inr ?_
      rw [Query.request, Query.request]
      exact (length_selector hitems item hmem).trans
        ((congrArg selectorLength hsame).trans (length_selector hitems item' hmem').symm)
    · exact Or.inl hsame
  · rintro outcome ⟨hok, -⟩
    exact nomatch hok

/-- As long as the unit answers and refuses nothing, the calls of `_configure` are apart, so that
each gets the answer to itself. -/
theorem configure_apart (payload : Item → Value → List UInt8)
    (h : Configured (configure today s apply) d l report d') : l.IsChain (NextApart payload) := by
  -- `INFO` comes first, and Port A is asked for next
  have hfirst : ∀ {is : List Item} {serial : ℕ} {p r} {l : Asked}, Sbg.items today s = .ok is →
      LoopRun s apply p is l r → ∀ y ∈ l.head?, NextApart payload ⟨.info, .ok serial⟩ y := by
    intro is serial p r l hitems hrun y hy outcome _
    obtain ⟨item, hitem, a, rfl⟩ := hrun.head? y hy
    obtain ⟨rest, rfl, -⟩ := items_head hitems
    obtain rfl : uartItem = item := Option.some.inj hitem
    exact Or.inl (show infoCommand ≠ uartConf by decide)
  have hinfoSave : ∀ {serial : ℕ} {a : Except Fault Unit},
      NextApart payload ⟨.info, .ok serial⟩ ⟨.save, a⟩ := fun _ _ =>
    Or.inl (show infoCommand ≠ ⟨settingsAction, by decide⟩ by decide)
  cases configureRun h with
  | lost | silent => exact List.isChain_singleton _
  | noProfile serial text _ p _ hend =>
    cases hend with
    | unsaved => exact List.isChain_singleton _
    | saved => exact List.isChain_pair.2 hinfoSave
  | broken serial is hitems hrun =>
    exact List.isChain_cons.2 ⟨hfirst hitems hrun, hrun.nextApart hitems⟩
  | @concluded serial is hitems loop last p r _ hrun hend =>
    have hlast : last = [] ∨ ∃ a : Except Fault Unit, last = [⟨.save, a⟩] := by
      cases hend with
      | unsaved => exact Or.inl rfl
      | saved _ a => exact Or.inr ⟨a, rfl⟩
    rcases hlast with rfl | ⟨a, rfl⟩
    · rw [List.append_nil]
      exact List.isChain_cons.2 ⟨hfirst hitems hrun, hrun.nextApart hitems⟩
    · refine List.isChain_cons.2 ⟨fun y hy => ?_, List.isChain_append.2
        ⟨hrun.nextApart hitems, List.isChain_singleton _, fun x hx y hy => ?_⟩⟩
      · rw [List.head?_append] at hy
        rcases Option.or_eq_some_iff.1 hy with hy | ⟨-, hy⟩
        · exact hfirst hitems hrun y hy
        · obtain rfl := Option.some.inj hy
          exact hinfoSave
      · obtain rfl := Option.some.inj hy
        rcases hrun.getLast? x hx with ⟨item, a', rfl⟩ | ⟨item, want, e, -, rfl⟩
        · rintro outcome ⟨-, bytes, rfl⟩
          exact Or.inr trivial
        · rintro outcome ⟨hok, -⟩
          exact nomatch hok

theorem configure_apart_zeroRun : zeroRun.1.IsChain (NextApart fun _ _ => []) :=
  configure_apart _ configured_zeroRun

end Sbg

end Mtrtk
