import Mtrtk.SbgConfig

/-!
# What a configuration does to the unit

The runs of `_configure`, with any answers of the unit. `ItemRun` is all that can happen to an item,
`LoopRun` puts the items together.
-/

namespace Mtrtk

namespace Sbg

/-- What the unit is asked, with its answers, in order. -/
abbrev Asked := List ((q : Query) × Answer q)

/-- A run to the end, with any answers. Only one runs at a time, so the driver is its own. -/
abbrev Configured {α : Type} (c : Configuring α) (d : DriverState) (l : Asked) (a : α)
    (d' : DriverState) : Prop :=
  Co.Runs Eq (fun _ _ s t => t = s) c d l a d'

variable {d d' : DriverState} {l : Asked}

theorem configured_ask {q : Query} {r : Answer q} :
    Configured (Co.ask q) d l r d' ↔ l = [⟨q, r⟩] ∧ d' = d := by
  rw [Configured, Co.runs_ask]
  refine and_congr_right fun _ => ⟨?_, ?_⟩
  · rintro ⟨u, henv, rfl⟩
    induction henv with
    | refl => rfl
    | tail _ hstep ih => exact hstep ▸ ih
  · rintro rfl
    exact ⟨_, .refl, rfl⟩

/-! ## One item -/

variable (s : Settings) (apply : Bool) (p : Progress) (item : Item)

/-- The report with the value that was read of the item. -/
def Progress.read (p : Progress) (item : Item) (v : Value) : Progress :=
  { p with report := { p.report with current := p.report.current.set item.name v } }

/-- How the read-back ends. -/
inductive ReadBackRun (current want : Value) : Asked → Option Progress → Prop
  | lost (written : Written) :
      ReadBackRun current want [⟨.get item, .error (.linkLost written)⟩] none
  | refused (e : CommandError) : ReadBackRun current want [⟨.get item, .error (.command e)⟩]
      (some { p with report := p.report.fail (item.name ++ ": " ++ e.text) })
  | applied (after : Value) (h : same want after = true) :
      ReadBackRun current want [⟨.get item, .ok after⟩]
        (some { p.read item after with
          report := { (p.read item after).report with applied := p.report.applied ++ [item.name] } })
  | unsupported (after : Value) (h : same want after = false) (hevent : isEvent item.name = true)
      (hoff : after.isFalse = true) :
      ReadBackRun current want [⟨.get item, .ok after⟩]
        (some { p.read item after with
          report := { (p.read item after).report with
            unsupported := p.report.unsupported ++ [item.name] } })
  | mismatched (after : Value) (h : same want after = false) :
      ReadBackRun current want [⟨.get item, .ok after⟩]
        (some { p.read item after with
          report := { (p.read item after).report with
            mismatched := p.report.mismatched ++ [item.name] } })

theorem readBackRun {p : Progress} {item : Item} {current want : Value} {r : Option Progress}
    (h : Configured (readBack p item current want) d l r d') :
    d' = d ∧ ReadBackRun p item current want l r := by
  obtain ⟨l₁, l₂, answer, u, hget, hrest, rfl⟩ := Co.runs_bind.1 h
  obtain ⟨rfl, rfl⟩ := configured_ask.1 hget
  match answer with
  | .error (.linkLost written) =>
    obtain ⟨rfl, rfl, rfl⟩ := Co.runs_pure.1 hrest
    exact ⟨rfl, .lost written⟩
  | .error (.command e) =>
    obtain ⟨rfl, rfl, rfl⟩ := Co.runs_pure.1 hrest
    exact ⟨rfl, .refused e⟩
  | .ok after =>
    dsimp only at hrest
    split_ifs at hrest with hsame hevent
    · obtain ⟨rfl, rfl, rfl⟩ := Co.runs_pure.1 hrest
      exact ⟨rfl, .applied after hsame⟩
    · obtain ⟨rfl, rfl, rfl⟩ := Co.runs_pure.1 hrest
      simp only [Bool.and_eq_true] at hevent
      exact ⟨rfl, .unsupported after (by simpa using hsame) hevent.1.1 hevent.1.2⟩
    · obtain ⟨rfl, rfl, rfl⟩ := Co.runs_pure.1 hrest
      exact ⟨rfl, .mismatched after (by simpa using hsame)⟩

/-- The item is set from `current` to `want` : it is managed and differs, and for a fast output
the link is not too slow. -/
structure Sets (s : Settings) (apply : Bool) (p : Progress) (item : Item) (current want : Value) :
    Prop where
  apply : apply = true
  writable : item.writable = true
  target : item.target current = some want
  differs : same want current = false
  fast : item.fast = true → linkTooSlow (p.read item current).report s = none

/-- The report with what the item should be. -/
def Progress.want (p : Progress) (item : Item) (current want : Value) : Progress :=
  let p := p.read item current
  { p with report := { p.report with wanted := p.report.wanted.set item.name want } }

/-- All that can happen to an item. -/
inductive ItemRun : Asked → Option Progress → Prop
  | lost (written : Written) : ItemRun [⟨.get item, .error (.linkLost written)⟩] none
  | unsupported (e : CommandError) : ItemRun [⟨.get item, .error (.command e)⟩]
      (some { p with report := { p.report with unsupported := p.report.unsupported ++ [item.name] } })
  | refused (e : CommandError) : ItemRun [⟨.get item, .error (.command e)⟩]
      (some { p with report := p.report.fail (item.name ++ ": " ++ e.text) })
  | unchanged (current : Value) (h : ∀ want, item.target current = some want →
      item.writable = false ∨ same want current = true) : ItemRun [⟨.get item, .ok current⟩]
      (some { p.read item current with
        report := { (p.read item current).report with unchanged := p.report.unchanged ++ [item.name] } })
  | pending (current want : Value) (htarget : item.target current = some want)
      (h : apply = false ∨
        item.fast = true ∧ (linkTooSlow (p.read item current).report s).isSome = true)
      (p' : Progress)
      (hreport : p'.report = { (p.want item current want).report with
        pending := p.report.pending ++ [item.name] }) :
      ItemRun [⟨.get item, .ok current⟩] (some p')
  | setLost (current want : Value) (h : Sets s apply p item current want) (written : Written) :
      ItemRun [⟨.get item, .ok current⟩, ⟨.set item want, .error (.linkLost written)⟩] none
  | setRefused (current want : Value) (h : Sets s apply p item current want) (e : CommandError)
      (hcode : e.code.isSome = true) (p' : Progress) (hreport : p'.report =
        (p.want item current want).report.fail (item.name ++ ": " ++ e.text)) :
      ItemRun [⟨.get item, .ok current⟩, ⟨.set item want, .error (.command e)⟩] (some p')
  | set (current want : Value) (h : Sets s apply p item current want) (answer : Except Fault Unit)
      (hanswer : ∀ written, answer ≠ .error (.linkLost written)) (p' : Progress)
      (hreport : p'.report = (p.want item current want).report) {l r}
      (hback : ReadBackRun p' item current want l r) :
      ItemRun (⟨.get item, .ok current⟩ :: ⟨.set item want, answer⟩ :: l) r

variable {s apply p item}

theorem itemRun {r : Option Progress} (h : Configured (configureItem s apply p item) d l r d') :
    d' = d ∧ ItemRun s apply p item l r := by
  obtain ⟨l₁, l₂, answer, u, hget, hrest, rfl⟩ := Co.runs_bind.1 h
  obtain ⟨rfl, rfl⟩ := configured_ask.1 hget
  match answer with
  | .error (.linkLost written) =>
    obtain ⟨rfl, rfl, rfl⟩ := Co.runs_pure.1 hrest
    exact ⟨rfl, .lost written⟩
  | .error (.command e) =>
    dsimp only at hrest
    split_ifs at hrest
    · obtain ⟨rfl, rfl, rfl⟩ := Co.runs_pure.1 hrest
      exact ⟨rfl, .unsupported e⟩
    · obtain ⟨rfl, rfl, rfl⟩ := Co.runs_pure.1 hrest
      exact ⟨rfl, .refused e⟩
  | .ok current =>
    dsimp only at hrest
    cases htarget : item.target current with
    | none =>
      rw [htarget] at hrest
      obtain ⟨rfl, rfl, rfl⟩ := Co.runs_pure.1 hrest
      exact ⟨rfl, .unchanged current (by simp [htarget])⟩
    | some want =>
      rw [htarget] at hrest
      dsimp only at hrest
      split_ifs at hrest with hunchanged hread hslow
      · obtain ⟨rfl, rfl, rfl⟩ := Co.runs_pure.1 hrest
        refine ⟨rfl, .unchanged current fun want' hwant => ?_⟩
        obtain rfl := Option.some.inj (htarget.symm.trans hwant)
        simpa using hunchanged
      · obtain ⟨rfl, rfl, rfl⟩ := Co.runs_pure.1 hrest
        exact ⟨rfl, .pending current want htarget (Or.inl (by simpa using hread)) _ rfl⟩
      · obtain ⟨rfl, rfl, rfl⟩ := Co.runs_pure.1 hrest
        exact ⟨rfl, .pending current want htarget (Or.inr (Bool.and_eq_true_iff.1 hslow)) _ rfl⟩
      · have hsets : Sets s apply p item current want := by
          simp only [Bool.or_eq_true, Bool.not_eq_eq_eq_not, Bool.not_true, not_or,
            Bool.not_eq_false, Bool.not_eq_true] at hunchanged
          exact {
            apply := by simpa using hread
            writable := hunchanged.1
            target := htarget
            differs := hunchanged.2
            fast := fun hfast => by
              have hslow : ¬(linkTooSlow (p.want item current want).report s).isSome = true := fun h =>
                hslow (Bool.and_eq_true_iff.2 ⟨hfast, h⟩)
              exact Option.not_isSome_iff_eq_none.1 hslow }
        obtain ⟨l₁, l₃, answer, u, hset, hback, rfl⟩ := Co.runs_bind.1 hrest
        clear hrest
        obtain ⟨rfl, rfl⟩ := configured_ask.1 hset
        match answer with
        | .error (.linkLost written) =>
          obtain ⟨rfl, rfl, rfl⟩ := Co.runs_pure.1 hback
          exact ⟨rfl, .setLost current want hsets written⟩
        | .error (.command e) =>
          dsimp only at hback
          split_ifs at hback with hcode
          · obtain ⟨rfl, rfl, rfl⟩ := Co.runs_pure.1 hback
            exact ⟨rfl, .setRefused current want hsets e hcode _ rfl⟩
          · obtain ⟨rfl, hrun⟩ := readBackRun hback
            exact ⟨rfl, .set current want hsets _ (by simp)
              (p.checked s item (p.want item current want).report) rfl hrun⟩
        | .ok () =>
          obtain ⟨rfl, hrun⟩ := readBackRun hback
          exact ⟨rfl, .set current want hsets _ (by simp)
            (p.checked s item (p.want item current want).report) rfl hrun⟩

/-! ## All items -/

/-- The items, one after the other. -/
inductive LoopRun (s : Settings) (apply : Bool) :
    Progress → List Item → Asked → Option Progress → Prop
  | done (p : Progress) : LoopRun s apply p [] [] (some p)
  | lost {p : Progress} {item : Item} {items : List Item} {l : Asked}
      (h : ItemRun s apply p item l none) : LoopRun s apply p (item :: items) l none
  | next {p p' : Progress} {item : Item} {items : List Item} {l l' : Asked} {r : Option Progress}
      (h : ItemRun s apply p item l (some p')) (hrest : LoopRun s apply p' items l' r) :
      LoopRun s apply p (item :: items) (l ++ l') r

theorem loopRun {items : List Item} {r : Option Progress}
    (h : Configured (configureItems s apply p items) d l r d') :
    d' = d ∧ LoopRun s apply p items l r := by
  induction items generalizing p l d with
  | nil =>
    obtain ⟨rfl, rfl, rfl⟩ := Co.runs_pure.1 h
    exact ⟨rfl, .done p⟩
  | cons item items ih =>
    obtain ⟨l₁, l₂, next, u, hitem, hrest, rfl⟩ := Co.runs_bind.1 h
    obtain ⟨rfl, hone⟩ := itemRun hitem
    cases next with
    | none =>
      obtain ⟨rfl, rfl, rfl⟩ := Co.runs_pure.1 hrest
      rw [List.append_nil]
      exact ⟨rfl, .lost hone⟩
    | some p' =>
      obtain ⟨rfl, hloop⟩ := ih hrest
      exact ⟨rfl, .next hone hloop⟩

/-! ## Every item is filed once -/

/-- The items that are listed in the report. -/
def Report.filed (r : Report) : List String :=
  r.applied ++ r.unchanged ++ r.pending ++ r.mismatched ++ r.unsupported

/-- From `r` to `r'` the items are filed, and those that are not have an error of their own. -/
def Files (r r' : Report) (items : List Item) : Prop := ∃ failed : List (Item × String),
  (r'.filed ++ failed.map fun f => f.1.name).Perm (r.filed ++ items.map Item.name) ∧
    r'.errors = r.errors ++ failed.map fun f => f.1.name ++ ": " ++ f.2

theorem Files.refl (r : Report) : Files r r [] := ⟨[], by simp, by simp⟩

theorem Files.trans {r₁ r₂ r₃ : Report} {items items' : List Item} (h : Files r₁ r₂ items)
    (h' : Files r₂ r₃ items') : Files r₁ r₃ (items ++ items') := by
  obtain ⟨failed, hperm, herrors⟩ := h
  obtain ⟨failed', hperm', herrors'⟩ := h'
  refine ⟨failed ++ failed', List.perm_iff_count.2 fun name => ?_, by simp [herrors', herrors]⟩
  have hcount := List.perm_iff_count.1 hperm name
  have hcount' := List.perm_iff_count.1 hperm' name
  simp only [List.map_append, List.count_append] at hcount hcount' ⊢
  omega

/-- The item goes into one of the lists. -/
theorem Files.of_perm {r r' : Report} {item : Item} (h : r'.errors = r.errors)
    (hperm : ∀ name, r'.filed.count name = r.filed.count name + [item.name].count name) :
    Files r r' [item] :=
  ⟨[], List.perm_iff_count.2 fun name => by simpa using hperm name, by simp [h]⟩

/-- The item fails. -/
theorem Files.of_fail {r r' : Report} {item : Item} {text : String}
    (h : r'.errors = r.errors ++ [item.name ++ ": " ++ text]) (hfiled : r'.filed = r.filed) :
    Files r r' [item] :=
  ⟨[(item, text)], by simp [hfiled], h⟩

theorem ReadBackRun.files {current want : Value} {p' : Progress}
    (h : ReadBackRun p item current want l (some p')) : Files p.report p'.report [item] := by
  generalize hr : some p' = r at h
  cases h with
  | lost => exact nomatch hr
  | refused e =>
    obtain rfl := Option.some.inj hr
    exact .of_fail rfl rfl
  | applied | unsupported | mismatched =>
    obtain rfl := Option.some.inj hr
    refine .of_perm rfl fun name => ?_
    simp only [Progress.read, Report.filed, List.count_append]
    omega

theorem ItemRun.files {p' : Progress} (h : ItemRun s apply p item l (some p')) :
    Files p.report p'.report [item] := by
  generalize hr : some p' = r at h
  cases h with
  | lost | setLost => exact nomatch hr
  | unsupported | unchanged =>
    obtain rfl := Option.some.inj hr
    refine .of_perm rfl fun name => ?_
    simp only [Progress.read, Report.filed, List.count_append]
    omega
  | refused e =>
    obtain rfl := Option.some.inj hr
    exact .of_fail rfl rfl
  | pending current want _ _ p' hreport =>
    obtain rfl := Option.some.inj hr
    rw [hreport]
    refine .of_perm rfl fun name => ?_
    simp only [Progress.want, Progress.read, Report.filed, List.count_append]
    omega
  | setRefused current want _ e _ p' hreport =>
    obtain rfl := Option.some.inj hr
    rw [hreport]
    exact .of_fail rfl rfl
  | set current want _ answer _ p'' hreport hback =>
    obtain rfl := hr
    have hfiles := hback.files
    rw [hreport] at hfiles
    exact hfiles

theorem LoopRun.files {items : List Item} {p' : Progress}
    (h : LoopRun s apply p items l (some p')) : Files p.report p'.report items := by
  generalize hr : some p' = r at h
  induction h with
  | done p =>
    obtain rfl := Option.some.inj hr
    exact .refl _
  | lost => exact nomatch hr
  | next hitem _ ih => exact hitem.files.trans (ih hr)

/-! ## The save -/

/-- The same items are filed, and errors are only added. -/
def Report.Extends (r' r : Report) : Prop := r'.filed = r.filed ∧ ∃ more, r'.errors = r.errors ++ more

theorem Report.Extends.refl (r : Report) : r.Extends r := ⟨rfl, [], by simp⟩

theorem Report.Extends.trans {r₁ r₂ r₃ : Report} (h : r₃.Extends r₂) (h' : r₂.Extends r₁) :
    r₃.Extends r₁ := by
  obtain ⟨hfiled, more, hmore⟩ := h
  obtain ⟨hfiled', more', hmore'⟩ := h'
  exact ⟨hfiled.trans hfiled', more' ++ more, by rw [hmore, hmore', List.append_assoc]⟩

theorem extends_fail (r : Report) (text : String) : (r.fail text).Extends r :=
  ⟨rfl, [text], rfl⟩

theorem extends_failIf (r : Report) (text : Option String) : (r.failIf text).Extends r := by
  cases text
  · exact .refl r
  · exact extends_fail r _

variable (s apply p) in
theorem concluded_extends : (concluded s apply p).Extends p.report := by
  have hnotes : ∀ (r : Report) notes, ({ r with notes := notes } : Report).Extends r :=
    fun r _ => ⟨rfl, [], by simp⟩
  exact (hnotes _ _).trans ((extends_failIf _ _).trans (extends_failIf _ _))

/-- What is found in the loop is the same behind it. -/
theorem failIf_fields (r : Report) (text : Option String) : (r.failIf text).applied = r.applied ∧
    (r.failIf text).mismatched = r.mismatched ∧ (r.failIf text).pending = r.pending ∧
      (r.failIf text).current = r.current := by
  cases text <;> exact ⟨rfl, rfl, rfl, rfl⟩

variable (s apply p) in
theorem concluded_fields : (concluded s apply p).applied = p.report.applied ∧
    (concluded s apply p).mismatched = p.report.mismatched ∧
    (concluded s apply p).pending = p.report.pending ∧
    (concluded s apply p).current = p.report.current := by
  simp only [concluded, (failIf_fields _ _).1, (failIf_fields _ _).2.1, (failIf_fields _ _).2.2.1,
    (failIf_fields _ _).2.2.2, and_self]

/-- The settings may be saved. -/
structure Saves (s : Settings) (apply : Bool) (serial : ℕ) (d : DriverState) (p : Progress) : Prop where
  apply : apply = true
  applyConfig : s.applyConfig = true
  unsaved : d.savedThisRun = false
  matched : p.report.mismatched = []
  link : linkTooSlow p.report s = none
  /-- Something was applied, now or before. -/
  reason : p.report.applied ≠ [] ∨ serial ∈ d.ramOnly ∧ p.report.pending = []

/-- The write of a save is done. -/
def SaveWritten (answer : Except Fault Unit) : Prop :=
  match answer with
  | .error (.linkLost .no) | .error (.linkLost .stalled) => False
  | _ => True

/-- How `_configure` ends behind the loop. -/
inductive ConcludeRun (s : Settings) (apply : Bool) (serial : ℕ) (p : Progress) (d : DriverState) :
    Asked → Option Report → DriverState → Prop
  | unsaved (report : Report) (h : report.Extends p.report) (d' : DriverState)
      (hd : d'.savedThisRun = d.savedThisRun) : ConcludeRun s apply serial p d [] (some report) d'
  | saved (h : Saves s apply serial d p) (answer : Except Fault Unit) (r : Option Report)
      (hr : ∀ report ∈ r, report.Extends p.report) (d' : DriverState)
      (hd : d'.savedThisRun = true ↔ SaveWritten answer) :
      ConcludeRun s apply serial p d [⟨.save, answer⟩] r d'

theorem publishRun {report : Report} {r : Option Report}
    (h : Configured (publish report) d l r d') :
    l = [] ∧ r = some report ∧ d'.savedThisRun = d.savedThisRun := by
  obtain ⟨l₁, l₂, _, _, hset, hret, rfl⟩ := Co.runs_bind.1 h
  obtain ⟨rfl, rfl⟩ := Co.runs_modify.1 hset
  obtain ⟨rfl, rfl, rfl⟩ := Co.runs_pure.1 hret
  exact ⟨rfl, rfl, rfl⟩

@[simp] theorem savedThisRun_clearRamOnly (serial : ℕ) (d : DriverState) :
    (clearRamOnly serial d).savedThisRun = d.savedThisRun := by
  unfold clearRamOnly
  split <;> rfl

@[simp] theorem savedThisRun_markRamOnly (serial : ℕ) (d : DriverState) :
    (markRamOnly serial d).savedThisRun = d.savedThisRun := by
  unfold markRamOnly
  split <;> rfl

theorem saveRun {serial : ℕ} {ramOnly : Bool} {report : Report} {r : Option Report}
    (h : Configured (save serial ramOnly report) d l r d') : ∃ answer, l = [⟨.save, answer⟩] ∧
      (∀ report' ∈ r, report'.Extends report) ∧ (d'.savedThisRun = true ↔ SaveWritten answer) := by
  obtain ⟨l₁, l₂, _, _, hmark, hrest, rfl⟩ := Co.runs_bind.1 h
  obtain ⟨rfl, rfl⟩ := Co.runs_modify.1 hmark
  obtain ⟨l₃, l₄, answer, _, hsave, hend, rfl⟩ := Co.runs_bind.1 hrest
  obtain ⟨rfl, rfl⟩ := configured_ask.1 hsave
  clear h hmark hrest hsave
  refine ⟨answer, ?_⟩
  -- the marker is cleared, and the report is published
  have hcleared : ∀ {report' : Report} {d : DriverState} {l},
      Configured (do modify (clearRamOnly serial); publish report') d l r d' →
        l = [] ∧ r = some report' ∧ d'.savedThisRun = d.savedThisRun := by
    intro report' d l h
    obtain ⟨l₁, l₂, _, _, hclear, hpublish, rfl⟩ := Co.runs_bind.1 h
    obtain ⟨rfl, rfl⟩ := Co.runs_modify.1 hclear
    obtain ⟨rfl, hr, hd⟩ := publishRun hpublish
    exact ⟨rfl, hr, by rw [hd, savedThisRun_clearRamOnly]⟩
  match answer with
  | .ok () =>
    obtain ⟨rfl, rfl, hd⟩ := hcleared hend
    refine ⟨rfl, fun report' hmem => ?_, by simp [hd, SaveWritten]⟩
    obtain rfl := Option.some.inj hmem
    exact ⟨rfl, [], by simp⟩
  | .error (.linkLost .no) | .error (.linkLost .stalled) | .error (.linkLost .done) =>
    obtain ⟨l₁, l₂, _, _, hset, hret, rfl⟩ := Co.runs_bind.1 hend
    obtain ⟨rfl, rfl⟩ := Co.runs_modify.1 hset
    obtain ⟨rfl, rfl, rfl⟩ := Co.runs_pure.1 hret
    exact ⟨rfl, by simp, by simp [SaveWritten]⟩
  | .error (.command e) =>
    dsimp only at hend
    split_ifs at hend
    · obtain ⟨rfl, rfl, hd⟩ := hcleared hend
      refine ⟨rfl, fun report' hmem => ?_, by simp [hd, SaveWritten]⟩
      obtain rfl := Option.some.inj hmem
      exact extends_fail _ _
    · obtain ⟨rfl, rfl, hd⟩ := publishRun hend
      refine ⟨rfl, fun report' hmem => ?_, by simp [hd, SaveWritten]⟩
      obtain rfl := Option.some.inj hmem
      exact extends_fail _ _

theorem concludeRun {serial : ℕ} {r : Option Report}
    (h : Configured (conclude s apply serial p) d l r d') :
    ConcludeRun s apply serial p d l r d' := by
  obtain ⟨happlied, hmismatched, hpending, hcurrent⟩ := concluded_fields s apply p
  have hextends := concluded_extends s apply p
  have hslow : linkTooSlow (concluded s apply p) s = linkTooSlow p.report s := by
    simp only [linkTooSlow, hcurrent]
  obtain ⟨l₁, l₂, _, d₁, hmark, hrest, rfl⟩ := Co.runs_bind.1 h
  clear h
  obtain ⟨rfl, rfl⟩ := Co.runs_modify.1 hmark
  obtain ⟨l₃, l₄, _, _, hget, hend, rfl⟩ := Co.runs_bind.1 hrest
  clear hrest
  obtain ⟨rfl, rfl, rfl⟩ := Co.runs_get.1 hget
  simp only [happlied, hmismatched, hpending] at hend
  set d₁ := if (apply && decide (p.report.applied ≠ [])) = true then markRamOnly serial d else d
    with hd₁
  have hsaved : d₁.savedThisRun = d.savedThisRun := by
    rw [hd₁]
    split
    · exact savedThisRun_markRamOnly serial d
    · rfl
  split_ifs at hend with hcond
  · split at hend
    · next blocker _ =>
      obtain ⟨rfl, rfl, hd⟩ := publishRun hend
      exact .unsaved _ ((extends_fail _ _).trans hextends) _ (hd.trans hsaved)
    · next hlink =>
      obtain ⟨answer, rfl, hr, hd⟩ := saveRun hend
      simp only [Bool.and_eq_true, Bool.or_eq_true, decide_eq_true_eq, Bool.not_eq_true',
        hsaved] at hcond
      obtain ⟨⟨⟨⟨happly, hreason⟩, hmatched⟩, hconfig⟩, hunsaved⟩ := hcond
      refine .saved ⟨happly, hconfig, hunsaved, hmatched, hslow ▸ hlink, ?_⟩ answer r
        (fun report hmem => (hr report hmem).trans hextends) _ hd
      rcases hreason with hnew | ⟨⟨⟨hmarked, hnone⟩, -⟩, hempty⟩
      · exact Or.inl hnew
      · have hd : d₁ = d := by
          rw [hd₁]
          simp [hempty]
        exact Or.inr ⟨hd ▸ hmarked, hnone⟩
  · obtain ⟨rfl, rfl, hd⟩ := publishRun hend
    exact .unsaved _ hextends _ (hd.trans hsaved)

end Sbg

end Mtrtk
