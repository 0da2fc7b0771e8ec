import Mathlib.Data.List.Basic
import Mathlib.Data.List.Nodup
import Mathlib.Logic.Function.Basic
import Mtrtk.Run
import Mtrtk.Text

/-!
# Publishing an export

`rinex/export.py` : `_publish` moves the files of an export out of its staging directory, each with
one rename. To overwrite, it first sets the files of the same names aside in the staging
directory, and when a rename fails it removes what it has moved and puts back what it has set
aside.

A step of `Publishing` is one file operation, and every state between two of them can be seen from
outside. The phases are those of the function, each with what it has still to go through.
`AllOrNothing` says for each of them how the directory came out of what it was, and
`publish_all_or_nothing` what that is at the end. What is set aside is stored under a name of its
own (`oldName`), which no new file may have (`aside_replaces_staged`).

A directory has an `Entry` for a name. For a symbolic link that leads nowhere `Path.exists` is
false, so that it is neither refused nor set aside : a file takes its place, and an export that
fails after that does not bring it back (`link_not_put_back`).
-/

namespace Mtrtk

/-- `OLD_PREFIX`. -/
def oldPrefix : Str := ".old-".toList

/-- The name an earlier export's file is set aside under. -/
def oldName (name : Str) : Str := oldPrefix ++ name

/-- `MANIFEST_NAME`. -/
def manifestName : Str := "manifest.json".toList

/-- What a directory has under a name : a file, or a symbolic link that leads nowhere. -/
inductive Entry (γ : Type*)
  | file (content : γ)
  | dangling
  deriving DecidableEq

/-- `Path.exists`. -/
def pathExists {γ : Type*} : Option (Entry γ) → Bool
  | some (.file _) => true
  | _ => false

/-- Where `_publish` is : the two loops over the names, the two loops that undo them, and how it
ends. -/
inductive PublishPc
  | aside (names : List Str)
  | move (names : List Str)
  | unmove (moved : List Str)
  | restore (setAside : List Str)
  | published
  | failed
  deriving DecidableEq

/-- The two directories, and the variables of `_publish`. -/
structure Publishing (γ : Type*) where
  stage : Str → Option (Entry γ)
  out : Str → Option (Entry γ)
  moved : List Str := []
  setAside : List Str := []
  pc : PublishPc

variable {γ : Type*}

/-- The state `_publish` begins in, with the new files in the staging directory and the check of
`_refuse_existing` made. -/
def publishStart (names : List Str) (overwrite : Bool) (stage : Str → Option γ)
    (out : Str → Option (Entry γ)) : Publishing γ where
  stage name := (stage name).map .file
  out := out
  pc :=
    if overwrite then .aside names
    else if names.any fun name => pathExists (out name) then .failed
    else .move names

/-- The next file operation. Whether an `os.replace` of the first two loops fails is up to
`fails`. -/
def publishStep (names : List Str) (s : Publishing γ) (fails : Bool) : Option (Publishing γ) :=
  match s.pc with
  | .aside [] => some { s with pc := .move names }
  | .aside (name :: rest) =>
    if ¬pathExists (s.out name) then some { s with pc := .aside rest }
    else if fails then some { s with pc := .unmove s.moved }
    else some { s with
      stage := Function.update s.stage (oldName name) (s.out name)
      out := Function.update s.out name none
      setAside := s.setAside ++ [name]
      pc := .aside rest }
  | .move [] => some { s with pc := .published }
  | .move (name :: rest) =>
    -- a file that is not there fails the rename as well
    match if fails then none else s.stage name with
    | none => some { s with pc := .unmove s.moved }
    | some new => some { s with
        stage := Function.update s.stage name none
        out := Function.update s.out name (some new)
        moved := s.moved ++ [name]
        pc := .move rest }
  | .unmove [] => some { s with pc := .restore s.setAside }
  | .unmove (name :: rest) =>
    some { s with out := Function.update s.out name none, pc := .unmove rest }
  | .restore [] => some { s with pc := .failed }
  | .restore (name :: rest) =>
    match s.stage (oldName name) with
    | none => some { s with pc := .restore rest }
    | some old => some { s with
        stage := Function.update s.stage (oldName name) none
        out := Function.update s.out name (some old)
        pc := .restore rest }
  | .published => none
  | .failed => none

theorem oldName_injective : Function.Injective oldName := fun _ _ h => List.append_cancel_left h

/-! ## What a step does -/

/-- The file operations, one for each line of `publishStep`. -/
inductive PublishStep (names : List Str) (s : Publishing γ) : Publishing γ → Prop
  | asideEnd (hpc : s.pc = .aside []) : PublishStep names s { s with pc := .move names }
  | absent {name : Str} {rest : List Str} (hpc : s.pc = .aside (name :: rest))
      (hout : pathExists (s.out name) = false) : PublishStep names s { s with pc := .aside rest }
  | asideFails {name : Str} {rest : List Str} (hpc : s.pc = .aside (name :: rest)) :
      PublishStep names s { s with pc := .unmove s.moved }
  | setsAside {name : Str} {rest : List Str} (hpc : s.pc = .aside (name :: rest))
      (hout : pathExists (s.out name) = true) : PublishStep names s { s with
        stage := Function.update s.stage (oldName name) (s.out name)
        out := Function.update s.out name none
        setAside := s.setAside ++ [name]
        pc := .aside rest }
  | moveEnd (hpc : s.pc = .move []) : PublishStep names s { s with pc := .published }
  | moveFails {name : Str} {rest : List Str} (hpc : s.pc = .move (name :: rest)) :
      PublishStep names s { s with pc := .unmove s.moved }
  | moves {name : Str} {rest : List Str} {new : Entry γ} (hpc : s.pc = .move (name :: rest))
      (hstage : s.stage name = some new) : PublishStep names s { s with
        stage := Function.update s.stage name none
        out := Function.update s.out name (some new)
        moved := s.moved ++ [name]
        pc := .move rest }
  | unmoveEnd (hpc : s.pc = .unmove []) : PublishStep names s { s with pc := .restore s.setAside }
  | unmoves {name : Str} {rest : List Str} (hpc : s.pc = .unmove (name :: rest)) :
      PublishStep names s { s with out := Function.update s.out name none, pc := .unmove rest }
  | restoreEnd (hpc : s.pc = .restore []) : PublishStep names s { s with pc := .failed }
  | lost {name : Str} {rest : List Str} (hpc : s.pc = .restore (name :: rest))
      (hstage : s.stage (oldName name) = none) : PublishStep names s { s with pc := .restore rest }
  | restores {name : Str} {rest : List Str} {old : Entry γ} (hpc : s.pc = .restore (name :: rest))
      (hstage : s.stage (oldName name) = some old) : PublishStep names s { s with
        stage := Function.update s.stage (oldName name) none
        out := Function.update s.out name (some old)
        pc := .restore rest }

variable {names : List Str} {s s' : Publishing γ} {fails : Bool}

theorem publishStep_step (h : publishStep names s fails = some s') : PublishStep names s s' := by
  unfold publishStep at h
  split at h
  · next hpc =>
    cases h
    exact .asideEnd hpc
  · next name rest hpc =>
    split at h
    · next hout =>
      cases h
      exact .absent hpc (by simpa using hout)
    · next hout =>
      split at h
      · cases h
        exact .asideFails hpc
      · cases h
        exact .setsAside hpc (by simpa using hout)
  · next hpc =>
    cases h
    exact .moveEnd hpc
  · next name rest hpc =>
    split at h
    · cases h
      exact .moveFails hpc
    · next new hnew =>
      cases h
      refine .moves hpc ?_
      split at hnew
      · cases hnew
      · exact hnew
  · next hpc =>
    cases h
    exact .unmoveEnd hpc
  · next name rest hpc =>
    cases h
    exact .unmoves hpc
  · next hpc =>
    cases h
    exact .restoreEnd hpc
  · next name rest hpc =>
    split at h
    · next hstage =>
      cases h
      exact .lost hpc hstage
    · next old hstage =>
      cases h
      exact .restores hpc hstage
  · cases h
  · cases h

/-- It stops at its end only. -/
theorem pc_of_publishStep_eq_none (h : publishStep names s fails = none) :
    s.pc = .published ∨ s.pc = .failed := by
  unfold publishStep at h
  repeat' split at h
  all_goals first
    | exact .inl ‹_›
    | exact .inr ‹_›
    | cases h

/-- How many steps are left at most. -/
def Publishing.left (names : List Str) (s : Publishing γ) : ℕ :=
  match s.pc with
  | .aside todo => 2 * todo.length + 2 * names.length + s.moved.length + s.setAside.length + 4
  | .move todo => 2 * todo.length + s.moved.length + s.setAside.length + 3
  | .unmove todo => todo.length + s.setAside.length + 2
  | .restore todo => todo.length + 1
  | .published | .failed => 0

theorem PublishStep.left_lt (h : PublishStep names s s') : s'.left names < s.left names := by
  cases h <;>
    · simp only [Publishing.left, *, List.length_cons, List.length_nil, List.length_append]
      omega

/-! ## All or nothing -/

section AllOrNothing

variable (names : List Str) (stage : Str → Option γ) (out : Str → Option (Entry γ))

/-- An entry is as it was, or a link that led nowhere and whose place was taken. -/
def PutBack (now : Str → Option (Entry γ)) (name : Str) : Prop :=
  now name = out name ∨ name ∈ names ∧ out name = some .dangling ∧ now name = none

/-- What is set aside can be put back. -/
structure Held (s : Publishing γ) (setAside : List Str) : Prop where
  nodup : setAside.Nodup
  kept : ∀ name ∈ setAside, s.stage (oldName name) = out name
  there : ∀ name ∈ setAside, pathExists (out name) = true

/-- In the loop that sets aside. -/
structure SettingAside (s : Publishing γ) (todo : List Str) : Prop where
  split : ∃ done, names = done ++ todo ∧ s.setAside ⊆ done ∧
    ∀ name ∈ done, name ∉ s.setAside → pathExists (out name) = false
  held : Held out s s.setAside
  moved : s.moved = []
  same : ∀ name, s.out name = if name ∈ s.setAside then none else out name
  staged : ∀ name ∈ names, s.stage name = (stage name).map .file

/-- In the loop that moves. -/
structure Moving (s : Publishing γ) (todo : List Str) : Prop where
  split : names = s.moved ++ todo
  held : Held out s s.setAside
  sub : s.setAside ⊆ names
  rest : ∀ name ∈ names, name ∉ s.setAside → pathExists (out name) = false
  same : ∀ name, s.out name =
    if name ∈ s.moved then (stage name).map .file else if name ∈ s.setAside then none else out name
  there : ∀ name ∈ s.moved, (stage name).isSome
  staged : ∀ name ∈ todo, s.stage name = (stage name).map .file

/-- In the loop that removes what was moved. -/
structure Unmoving (s : Publishing γ) (todo : List Str) : Prop where
  held : Held out s s.setAside
  new : ∀ name ∈ todo, name ∈ names ∧ (name ∉ s.setAside → pathExists (out name) = false)
  same : ∀ name, name ∉ todo → name ∉ s.setAside → PutBack names out s.out name

/-- In the loop that puts back. -/
structure Restoring (s : Publishing γ) (todo : List Str) : Prop where
  held : Held out s todo
  same : ∀ name, name ∉ todo → PutBack names out s.out name

/-- How the directories came out of what they were. -/
def AllOrNothing (s : Publishing γ) : Prop :=
  match s.pc with
  | .aside todo => SettingAside names stage out s todo
  | .move todo => Moving names stage out s todo
  | .unmove todo => Unmoving names out s todo
  | .restore todo => Restoring names out s todo
  | .published =>
    (∀ name ∈ names, ∃ file, stage name = some file ∧ s.out name = some (.file file)) ∧
      ∀ name ∉ names, s.out name = out name
  | .failed => ∀ name, PutBack names out s.out name

end AllOrNothing

/-- No new file has a name that an old one is set aside under. -/
def NoReserved (names : List Str) : Prop := ∀ a ∈ names, ∀ b ∈ names, a ≠ oldName b

variable {stage : Str → Option γ} {out : Str → Option (Entry γ)}

/-- What is not there is none, or a link that leads nowhere. -/
theorem pathExists_eq_false {entry : Option (Entry γ)} :
    pathExists entry = false ↔ entry = none ∨ entry = some .dangling := by
  rcases entry with _ | ⟨_ | _⟩ <;> simp [pathExists]

/-- A place that is emptied again was empty, or a link led nowhere from it. -/
theorem putBack_of_empty {now : Str → Option (Entry γ)} {name : Str} (hname : name ∈ names)
    (hout : pathExists (out name) = false) (hnow : now name = none) :
    PutBack names out now name := by
  rcases pathExists_eq_false.1 hout with hnone | hdangling
  · exact .inl (hnow.trans hnone.symm)
  · exact .inr ⟨hname, hdangling, hnow⟩

theorem AllOrNothing.start (overwrite : Bool) :
    AllOrNothing names stage out (publishStart names overwrite stage out) := by
  rcases overwrite with _ | _
  · by_cases hany : names.any (fun name => pathExists (out name)) = true
    · simp [AllOrNothing, publishStart, hany, PutBack]
    · have hnone : ∀ name ∈ names, pathExists (out name) = false := by
        simpa using hany
      simp only [AllOrNothing, publishStart, hany]
      exact
        { split := rfl
          held := ⟨List.nodup_nil, nofun, nofun⟩
          sub := List.nil_subset _
          rest := fun name hname _ => hnone name hname
          same := fun name => by simp
          there := nofun
          staged := fun _ _ => rfl }
  · exact
      { split := ⟨[], rfl, List.nil_subset _, nofun⟩
        held := ⟨List.nodup_nil, nofun, nofun⟩
        moved := rfl
        same := fun _ => by simp [publishStart]
        staged := fun _ _ => rfl }

/-- Every old file is set aside. -/
theorem SettingAside.finish (h : SettingAside names stage out s []) :
    Moving names stage out { s with pc := .move names } names := by
  obtain ⟨done, hsplit, hsub, hrest⟩ := h.split
  rw [List.append_nil] at hsplit
  subst hsplit
  exact
    { split := by simp [h.moved]
      held := ⟨h.held.nodup, h.held.kept, h.held.there⟩
      sub := hsub
      rest := hrest
      same := fun name => by simp [h.same, h.moved]
      there := by simp [h.moved]
      staged := h.staged }

theorem SettingAside.skip {name : Str} {rest : List Str}
    (h : SettingAside names stage out s (name :: rest)) (hout : pathExists (s.out name) = false) :
    SettingAside names stage out { s with pc := .aside rest } rest where
  split := by
    obtain ⟨done, hsplit, hsub, hrest⟩ := h.split
    refine ⟨done ++ [name], by simpa using hsplit, fun a ha => List.mem_append_left _ (hsub ha),
      fun a ha haside => ?_⟩
    rcases List.mem_append.1 ha with ha | ha
    · exact hrest a ha haside
    · obtain rfl := List.mem_singleton.1 ha
      rwa [h.same, if_neg haside] at hout
  held := ⟨h.held.nodup, h.held.kept, h.held.there⟩
  moved := h.moved
  same := h.same
  staged := h.staged

theorem SettingAside.next {name : Str} {rest : List Str} (hreserved : NoReserved names)
    (h : SettingAside names stage out s (name :: rest)) (hout : pathExists (s.out name) = true) :
    SettingAside names stage out { s with
      stage := Function.update s.stage (oldName name) (s.out name)
      out := Function.update s.out name none
      setAside := s.setAside ++ [name]
      pc := .aside rest } rest := by
  obtain ⟨done, hsplit, hsub, hrest⟩ := h.split
  have hname : name ∈ names := by simp [hsplit]
  have hnot : name ∉ s.setAside := fun hmem => by simp [h.same, hmem, pathExists] at hout
  have hsame : s.out name = out name := by rw [h.same, if_neg hnot]
  rw [hsame] at hout
  exact
    { split := ⟨done ++ [name], by simpa using hsplit,
        List.append_subset.2 ⟨List.subset_append_of_subset_left _ hsub,
          List.subset_append_right _ _⟩, fun a ha haside => by
          simp only [List.mem_append, List.mem_singleton, not_or] at ha haside
          exact hrest a (ha.resolve_right haside.2) haside.1⟩
      held :=
        { nodup := List.nodup_append.2 ⟨h.held.nodup, List.nodup_singleton _, by
            rintro a ha b hb rfl
            exact hnot (List.mem_singleton.1 hb ▸ ha)⟩
          kept := fun a ha => by
            rcases List.mem_append.1 ha with ha | ha
            · have hne : oldName a ≠ oldName name := fun heq =>
                hnot (oldName_injective heq ▸ ha)
              simpa [hne] using h.held.kept a ha
            · obtain rfl := List.mem_singleton.1 ha
              simpa using hsame
          there := fun a ha => by
            rcases List.mem_append.1 ha with ha | ha
            · exact h.held.there a ha
            · obtain rfl := List.mem_singleton.1 ha
              exact hout }
      moved := h.moved
      same := fun a => by
        by_cases ha : a = name
        · simp [ha]
        · simp [ha, h.same a]
      staged := fun a ha => by
        simpa [hreserved a ha name hname] using h.staged a ha }

theorem SettingAside.undo {todo : List Str} (h : SettingAside names stage out s todo) :
    Unmoving names out { s with pc := .unmove s.moved } s.moved where
  held := ⟨h.held.nodup, h.held.kept, h.held.there⟩
  new := by simp [h.moved]
  same name _ haside := .inl ((h.same name).trans (if_neg haside))

theorem Moving.undo {todo : List Str} (h : Moving names stage out s todo) :
    Unmoving names out { s with pc := .unmove s.moved } s.moved where
  held := ⟨h.held.nodup, h.held.kept, h.held.there⟩
  new name hname := by
    have hmem : name ∈ names := by
      rw [h.split]
      exact List.mem_append_left _ hname
    exact ⟨hmem, h.rest name hmem⟩
  same name hmoved haside := .inl (by simp [h.same, hmoved, haside])

theorem Moving.next {name : Str} {rest : List Str} {new : Entry γ} (hnodup : names.Nodup)
    (hreserved : NoReserved names) (h : Moving names stage out s (name :: rest))
    (hstage : s.stage name = some new) :
    Moving names stage out { s with
      stage := Function.update s.stage name none
      out := Function.update s.out name (some new)
      moved := s.moved ++ [name]
      pc := .move rest } rest := by
  have hname : name ∈ names := by simp [h.split]
  have hnew : (stage name).map .file = some new := by
    rw [← h.staged name List.mem_cons_self, hstage]
  rw [h.split, List.nodup_append] at hnodup
  have hnot := (List.nodup_cons.1 hnodup.2.1).1
  exact
    { split := by simp [h.split]
      held :=
        { nodup := h.held.nodup
          kept := fun a ha => by
            have hne : oldName a ≠ name := (hreserved name hname a (h.sub ha)).symm
            simpa [hne] using h.held.kept a ha
          there := h.held.there }
      sub := h.sub
      rest := h.rest
      same := fun a => by
        by_cases ha : a = name
        · simp [ha, hnew]
        · simp [ha, h.same a]
      there := fun a ha => by
        rcases List.mem_append.1 ha with ha | ha
        · exact h.there a ha
        · rw [List.mem_singleton.1 ha]
          obtain ⟨file, hfile, -⟩ := Option.map_eq_some_iff.1 hnew
          rw [hfile]
          rfl
      staged := fun a ha => by
        have hne : a ≠ name := fun heq => hnot (heq ▸ ha)
        simpa [hne] using h.staged a (List.mem_cons_of_mem _ ha) }

theorem PutBack.update {now : Str → Option (Entry γ)} {name a : Str} (h : PutBack names out now a)
    (hne : a ≠ name) (entry : Option (Entry γ)) :
    PutBack names out (Function.update now name entry) a := by
  simpa [PutBack, hne] using h

theorem Unmoving.next {name : Str} {rest : List Str} (h : Unmoving names out s (name :: rest)) :
    Unmoving names out { s with out := Function.update s.out name none, pc := .unmove rest }
      rest where
  held := ⟨h.held.nodup, h.held.kept, h.held.there⟩
  new a ha := h.new a (List.mem_cons_of_mem _ ha)
  same a ha haside := by
    by_cases hname : a = name
    · subst hname
      obtain ⟨hmem, hrest⟩ := h.new a List.mem_cons_self
      exact putBack_of_empty hmem (hrest haside) (by simp)
    · exact (h.same a (by simp [hname, ha]) haside).update hname none

theorem Restoring.next {name : Str} {rest : List Str} {old : Entry γ}
    (h : Restoring names out s (name :: rest)) (hstage : s.stage (oldName name) = some old) :
    Restoring names out { s with
      stage := Function.update s.stage (oldName name) none
      out := Function.update s.out name (some old)
      pc := .restore rest } rest := by
  obtain ⟨hnot, hnodup⟩ := List.nodup_cons.1 h.held.nodup
  have hold : out name = some old := (h.held.kept name List.mem_cons_self).symm.trans hstage
  exact
    { held :=
        { nodup := hnodup
          kept := fun a ha => by
            have hne : oldName a ≠ oldName name := fun heq => hnot (oldName_injective heq ▸ ha)
            simpa [hne] using h.held.kept a (List.mem_cons_of_mem _ ha)
          there := fun a ha => h.held.there a (List.mem_cons_of_mem _ ha) }
      same := fun a ha => by
        by_cases hname : a = name
        · subst hname
          exact .inl (by simp [hold])
        · exact (h.same a (by simp [hname, ha])).update hname _ }

theorem AllOrNothing.step (hnodup : names.Nodup) (hreserved : NoReserved names)
    (hinv : AllOrNothing names stage out s) (h : PublishStep names s s') :
    AllOrNothing names stage out s' := by
  unfold AllOrNothing at hinv
  cases h with
  | asideEnd hpc =>
    rw [hpc] at hinv
    exact hinv.finish
  | absent hpc hout =>
    rw [hpc] at hinv
    exact hinv.skip hout
  | asideFails hpc =>
    rw [hpc] at hinv
    exact hinv.undo
  | setsAside hpc hout =>
    rw [hpc] at hinv
    exact hinv.next hreserved hout
  | moveEnd hpc =>
    rw [hpc] at hinv
    have hsplit : names = s.moved := by simpa using hinv.split
    refine ⟨fun name hname => ?_, fun name hname => ?_⟩
    · obtain ⟨file, hfile⟩ := Option.isSome_iff_exists.1 (hinv.there name (hsplit ▸ hname))
      exact ⟨file, hfile, by rw [hinv.same, ← hsplit, if_pos hname, hfile]; rfl⟩
    · rw [hinv.same, ← hsplit, if_neg hname, if_neg fun haside => hname (hinv.sub haside)]
  | moveFails hpc =>
    rw [hpc] at hinv
    exact hinv.undo
  | moves hpc hstage =>
    rw [hpc] at hinv
    exact hinv.next hnodup hreserved hstage
  | unmoveEnd hpc =>
    rw [hpc] at hinv
    exact
      { held := ⟨hinv.held.nodup, hinv.held.kept, hinv.held.there⟩
        same := fun name => hinv.same name List.not_mem_nil }
  | unmoves hpc =>
    rw [hpc] at hinv
    exact hinv.next
  | restoreEnd hpc =>
    rw [hpc] at hinv
    exact fun name => hinv.same name List.not_mem_nil
  | lost hpc hstage =>
    rw [hpc] at hinv
    have hthere := hinv.held.there _ List.mem_cons_self
    rw [← hinv.held.kept _ List.mem_cons_self, hstage] at hthere
    cases hthere
  | restores hpc hstage =>
    rw [hpc] at hinv
    exact hinv.next hstage

/-- Publishing is all or nothing : whichever renames fail, it comes to an end with all new files in
the directory and every other entry as it was, or with the directory as it was, but for links that
led nowhere and whose places were taken. -/
theorem publish_all_or_nothing (hnodup : names.Nodup) (hreserved : NoReserved names)
    (overwrite : Bool) (stage : Str → Option γ) (out : Str → Option (Entry γ))
    (fails : ℕ → Bool) :
    ∃ n s, run (publishStep names) (publishStart names overwrite stage out)
        ((List.range n).map fails) = some s ∧
      ((s.pc = .published ∧
          (∀ name ∈ names, ∃ file, stage name = some file ∧ s.out name = some (.file file)) ∧
          ∀ name ∉ names, s.out name = out name) ∨
        s.pc = .failed ∧ ∀ name, PutBack names out s.out name) := by
  obtain ⟨n, s, hrun, hend⟩ := exists_run_end
    (fun s fails s' h => (publishStep_step h).left_lt)
    (publishStart names overwrite stage out) fails
  have hinv : AllOrNothing names stage out s := Reachable.invariant _ ⟨_, hrun⟩
    (AllOrNothing.start overwrite) fun t i t' _ hinv h =>
      hinv.step hnodup hreserved (publishStep_step h)
  refine ⟨n, s, hrun, ?_⟩
  unfold AllOrNothing at hinv
  rcases pc_of_publishStep_eq_none hend with hpc | hpc
  · rw [hpc] at hinv
    exact .inl ⟨hpc, hinv⟩
  · rw [hpc] at hinv
    exact .inr ⟨hpc, hinv⟩

/-- A directory with one file of an earlier export. -/
def oneFile (name : Str) : Option (Entry ℕ) :=
  if name = "o".toList then some (.file 0) else none

/-- Two new files, one of which replaces an old one, with the manifest's rename failing. -/
theorem publish_all_or_nothing_manifest_fails :
    ∃ n s, run (publishStep ["o".toList, manifestName])
        (publishStart ["o".toList, manifestName] true (fun _ => some 1) oneFile)
        ((List.range n).map (· = 4)) = some s ∧
      ((s.pc = .published ∧
          (∀ name ∈ ["o".toList, manifestName], ∃ file, some 1 = some file ∧
            s.out name = some (.file file)) ∧
          ∀ name ∉ ["o".toList, manifestName], s.out name = oneFile name) ∨
        s.pc = .failed ∧ ∀ name, PutBack ["o".toList, manifestName] oneFile s.out name) :=
  publish_all_or_nothing (by decide) (by unfold NoReserved; decide) true (fun _ => some 1)
    oneFile (· = 4)

/-- The names `x` and `.old-x` are distinct, but the old `x` is set aside in the place of the new
`.old-x`, and published for it. -/
theorem aside_replaces_staged :
    ["x".toList, oldName "x".toList].Nodup ∧ ∃ s, run (publishStep ["x".toList, oldName "x".toList])
        (publishStart ["x".toList, oldName "x".toList] true (fun _ => some 1)
          (fun name => if name = "x".toList then some (.file 0) else none))
        (List.replicate 6 false) = some s ∧
      s.pc = .published ∧ s.out (oldName "x".toList) = some (.file 0) :=
  ⟨by decide, _, rfl, rfl, rfl⟩

/-- A link that leads nowhere has the name of the first of two new files, and the rename of the
second fails : the link is gone. -/
theorem link_not_put_back : ∃ s, run (publishStep ["o".toList, manifestName])
      (publishStart ["o".toList, manifestName] false (fun _ => some 1)
        (fun name => if name = "o".toList then some .dangling else none))
      [false, true, false, false, false] = some s ∧
    s.pc = .failed ∧ s.out "o".toList = none :=
  ⟨_, rfl, rfl, rfl⟩

end Mtrtk
