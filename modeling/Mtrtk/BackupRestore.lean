import Mathlib.Logic.Function.Basic
import Mathlib.Tactic.Common
import Mtrtk.Run

/-!
# Restoring a backup

`backup.py` : `restore_backup` puts the database of an archive in the place of the one that is
there, and the archived sites and `.env` beside it. What it replaces it keeps : the database is
copied first (`_keep_previous`), the others are renamed (`_keep_reference`).

`DataDir.step` has one write after the other, and a restore may stop at each of them, because it
raises or because it is killed. `nothing_lost` : over any number of restores what was in a file is
there still, or is kept beside it, as long as no copy of a database takes the name of another. Its
name is the time in seconds (`copy_overwritten`). `_keep_reference` compares what `read_text` makes
of a file, so a text may lose its line ends to the same text with others.

The content of a database is taken with its WAL. The archive is what `_read_manifest`, `_member` and
`_check_database` have made of it. One restore runs at a time, and the temporary directory is left
out.
-/

namespace Mtrtk

namespace Restore

/-! ## The data directory -/

/-- What a restore replaces : `mtrtk.db`, `restored-sites.json` and `restored.env`. -/
inductive Item
  | db
  | sites
  | env
  deriving DecidableEq

/-- The files. `kept` is `<name>.pre-restore-<UTC>`, with `-<n>` where that is not zero. -/
inductive DataPath
  | item (i : Item)
  | wal
  | shm
  | envTmp
  | kept (i : Item) (stamp : String) (n : ℕ)
  deriving DecidableEq

/-- An archive that has passed its checks. `env` is `none` where there is no text in it. -/
structure Archive (α : Type*) where
  db : Option α
  sites : α
  env : Option α
  deriving DecidableEq

/-- How far a restore is. -/
inductive RestorePc (α : Type*)
  | idle
  | keepPrevious (a : Archive α)
  | copying (a : Archive α) (stamp : String)
  | clear (a : Archive α) (rest : List DataPath)
  | keepSites (a : Archive α)
  | writeSites (a : Archive α)
  | writingSites (a : Archive α)
  | keepEnv (text : α)
  | clearTmp (text : α)
  | writeTmp (text : α)
  | writingTmp (text : α)
  | replaceEnv (text : α)

/-- The archive whose sites are yet to be written. -/
def RestorePc.archive {α : Type*} : RestorePc α → Option (Archive α)
  | .keepPrevious a | .copying a _ | .clear a _ | .keepSites a | .writeSites a | .writingSites a =>
    some a
  | _ => none

/-- The file of an item has not been taken away, or reads as what comes next already. -/
def RestorePc.Spares {α : Type*} (readText : α → α) (i : Item) (c : α) : RestorePc α → Prop
  | .clear _ _ => i ≠ .db
  | .writeSites _ | .writingSites _ => i ≠ .sites
  | .clearTmp text | .writeTmp text | .writingTmp text | .replaceEnv text =>
    i = .env → readText c = text
  | _ => True

structure DataDir (α : Type*) where
  file : DataPath → Option α
  pc : RestorePc α := .idle

/-- What comes next. `next` is the next write : a file that is opened for writing has `torn` until
it is written, and a file that is kept gets the name of `stamp` and `n`. `stop` is an error or the
end of the process. `daemon` is what the daemon writes while nothing is restored. -/
inductive RestoreEvent (α : Type*)
  | restore (a : Archive α) (force sound inUse : Bool)
  | next (torn : α) (stamp : String) (n : ℕ)
  | stop
  | daemon (db : α)

variable {α : Type*}

namespace DataDir

def put (s : DataDir α) (path : DataPath) (content : α) : DataDir α :=
  { s with file := Function.update s.file path (some content) }

/-- `unlink(missing_ok=True)`. -/
def unlink (s : DataDir α) (path : DataPath) : DataDir α :=
  { s with file := Function.update s.file path none }

/-- `os.replace`. -/
def rename (s : DataDir α) (path path' : DataPath) : DataDir α :=
  { s with file := Function.update (Function.update s.file path' (s.file path)) path none }

def goto (s : DataDir α) (pc : RestorePc α) : DataDir α := { s with pc }

@[simp] theorem file_put (s : DataDir α) (path path' : DataPath) (content : α) :
    (s.put path content).file path' = if path' = path then some content else s.file path' := by
  rw [put]
  exact Function.update_apply ..

@[simp] theorem file_unlink (s : DataDir α) (path path' : DataPath) :
    (s.unlink path).file path' = if path' = path then none else s.file path' := by
  rw [unlink]
  exact Function.update_apply ..

@[simp] theorem file_rename (s : DataDir α) (path path' other : DataPath) :
    (s.rename path path').file other =
      if other = path then none else if other = path' then s.file path else s.file other := by
  simp only [rename, Function.update_apply]

@[simp] theorem file_goto (s : DataDir α) (pc : RestorePc α) : (s.goto pc).file = s.file := rfl

@[simp] theorem pc_goto (s : DataDir α) (pc : RestorePc α) : (s.goto pc).pc = pc := rfl

@[simp] theorem pc_put (s : DataDir α) (path : DataPath) (content : α) :
    (s.put path content).pc = s.pc := rfl

@[simp] theorem pc_rename (s : DataDir α) (path path' : DataPath) :
    (s.rename path path').pc = s.pc := rfl

variable [DecidableEq α] (readText : α → α)

/-- The loop of `_keep_reference` comes to `n`. -/
def isFree (s : DataDir α) (i : Item) (stamp : String) (n : ℕ) : Bool :=
  (List.range n).all (fun k => (s.file (.kept i stamp k)).isSome) &&
    (s.file (.kept i stamp n)).isNone

/-- `_keep_reference`, where `text` comes next. `readText` is what `read_text` makes of the line
ends of a file. -/
def keepReference (s : DataDir α) (i : Item) (text : α) (stamp : String) (n : ℕ) :
    Option (DataDir α) :=
  match s.file (.item i) with
  | none => some s
  | some old =>
    if readText old = text then some s
    else if s.isFree i stamp n then some (s.rename (.item i) (.kept i stamp n))
    else none

/-- `_keep_previous` comes next, or what comes after it. -/
def begin (s : DataDir α) (a : Archive α) (force inUse : Bool) : DataDir α :=
  match a.db with
  | none => s.goto (.keepSites a)
  | some _ =>
    if (s.file (.item .db)).isSome then
      if force && !inUse then s.goto (.keepPrevious a) else s
    else s.goto (.clear a [.item .db, .wal, .shm])

/-- The state after the event. -/
def step (s : DataDir α) : RestoreEvent α → Option (DataDir α)
  | .restore a force sound inUse =>
    match s.pc with
    | .idle => some (if sound then s.begin a force inUse else s)
    | _ => none
  | .stop => some (s.goto .idle)
  | .daemon db =>
    match s.pc with
    | .idle => some (s.put (.item .db) db)
    | _ => none
  | .next torn stamp n =>
    match s.pc with
    | .idle => none
    | .keepPrevious a => some ((s.put (.kept .db stamp 0) torn).goto (.copying a stamp))
    | .copying a stamp =>
      (s.file (.item .db)).map fun db =>
        (s.put (.kept .db stamp 0) db).goto (.clear a [.item .db, .wal, .shm])
    | .clear a (path :: rest) => some ((s.unlink path).goto (.clear a rest))
    | .clear a [] => a.db.map fun db => (s.put (.item .db) db).goto (.keepSites a)
    | .keepSites a => (s.keepReference readText .sites a.sites stamp n).map (·.goto (.writeSites a))
    | .writeSites a => some ((s.put (.item .sites) torn).goto (.writingSites a))
    | .writingSites a =>
      some ((s.put (.item .sites) a.sites).goto
        (match a.env with | none => .idle | some text => .keepEnv text))
    | .keepEnv text => (s.keepReference readText .env text stamp n).map (·.goto (.clearTmp text))
    | .clearTmp text => some ((s.unlink .envTmp).goto (.writeTmp text))
    | .writeTmp text => some ((s.put .envTmp torn).goto (.writingTmp text))
    | .writingTmp text => some ((s.put .envTmp text).goto (.replaceEnv text))
    | .replaceEnv _ => some ((s.rename .envTmp (.item .env)).goto .idle)

/-- No copy of a database takes the name of another. -/
def spares (s : DataDir α) : RestoreEvent α → Bool
  | .next _ stamp _ =>
    match s.pc with
    | .keepPrevious _ => (s.file (.kept .db stamp 0)).isNone
    | _ => true
  | _ => true

/-! ## What a step changes -/

variable {readText : α → α} {s s' : DataDir α} {e : RestoreEvent α} {i : Item} {c : α}
  {stamp : String} {n : ℕ}

theorem keepReference_cases {text : α} (h : s.keepReference readText i text stamp n = some s') :
    (s' = s ∧ ∀ old, s.file (.item i) = some old → readText old = text) ∨
      (∃ old, s.file (.item i) = some old) ∧ s.file (.kept i stamp n) = none ∧
        s' = s.rename (.item i) (.kept i stamp n) := by
  rw [keepReference] at h
  split at h
  · next hnone => exact .inl ⟨(Option.some.inj h).symm, fun old hold => by simp [hnone] at hold⟩
  · next old hold =>
    split at h
    · next hsame =>
      refine .inl ⟨(Option.some.inj h).symm, fun old' hold' => ?_⟩
      obtain rfl := Option.some.inj (hold.symm.trans hold')
      exact hsame
    · obtain ⟨hfree, h⟩ := Option.ite_none_right_eq_some.1 h
      have hnone := (Bool.and_eq_true_iff.1 hfree).2
      exact .inr ⟨⟨old, hold⟩, Option.isNone_iff_eq_none.1 hnone, (Option.some.inj h).symm⟩

/-- What a step does to the files, and where it goes. -/
inductive Does (readText : α → α) (s s' : DataDir α) (e : RestoreEvent α) : Prop
  | begins (a : Archive α) (he : ∃ force sound inUse, e = .restore a force sound inUse)
      (hidle : s.pc = .idle) (hfile : s'.file = s.file)
      (hpc : s'.pc = .idle ∨ s'.pc = .keepPrevious a ∨ s'.pc = .keepSites a ∨
        s.file (.item .db) = none ∧ s'.pc = .clear a [.item .db, .wal, .shm])
  | stops (hfile : s'.file = s.file) (hpc : s'.pc = .idle)
  | serves (db : α) (he : e = .daemon db) (hidle : s.pc = .idle) (hpc : s'.pc = .idle)
      (hfile : s'.file = (s.put (.item .db) db).file)
  | copies (a : Archive α) (torn : α) (stamp : String) (hfrom : s.pc = .keepPrevious a)
      (hfree : s.file (.kept .db stamp 0) = none) (hpc : s'.pc = .copying a stamp)
      (hfile : s'.file = (s.put (.kept .db stamp 0) torn).file)
  | copied (a : Archive α) (db : α) (stamp : String) (hfrom : s.pc = .copying a stamp)
      (hdb : s.file (.item .db) = some db) (hpc : s'.pc = .clear a [.item .db, .wal, .shm])
      (hfile : s'.file = (s.put (.kept .db stamp 0) db).file)
  | clears (a : Archive α) (path : DataPath) (rest : List DataPath)
      (hfrom : s.pc = .clear a (path :: rest)) (hpc : s'.pc = .clear a rest)
      (hfile : s'.file = (s.unlink path).file)
  | places (a : Archive α) (db : α) (hfrom : s.pc = .clear a []) (hdb : a.db = some db)
      (hpc : s'.pc = .keepSites a) (hfile : s'.file = (s.put (.item .db) db).file)
  | keeps (i : Item) (text : α) (stamp : String) (n : ℕ) (t : DataDir α)
      (hfrom : i = .sites ∧ (∃ a, a.sites = text ∧ s.pc = .keepSites a ∧ s'.pc = .writeSites a) ∨
        i = .env ∧ s.pc = .keepEnv text ∧ s'.pc = .clearTmp text)
      (hkeep : s.keepReference readText i text stamp n = some t) (hfile : s'.file = t.file)
  | writesSites (a : Archive α) (text : α)
      (hfrom : s.pc = .writeSites a ∧ s'.pc = .writingSites a ∨
        s.pc = .writingSites a ∧ (s'.pc = .idle ∨ ∃ env, s'.pc = .keepEnv env))
      (hfile : s'.file = (s.put (.item .sites) text).file)
  | writesTmp (text : α) (content : Option α)
      (hfrom : s.pc = .clearTmp text ∧ s'.pc = .writeTmp text ∨
        s.pc = .writeTmp text ∧ s'.pc = .writingTmp text ∨
        s.pc = .writingTmp text ∧ content = some text ∧ s'.pc = .replaceEnv text)
      (hfile : s'.file = Function.update s.file .envTmp content)
  | replaces (text : α) (hfrom : s.pc = .replaceEnv text) (hpc : s'.pc = .idle)
      (hfile : s'.file = (s.rename .envTmp (.item .env)).file)

theorem does_step (hspares : s.spares e = true) (hstep : s.step readText e = some s') :
    Does readText s s' e := by
  cases e with
  | restore a force sound inUse =>
    simp only [step] at hstep
    split at hstep
    · next hidle =>
      obtain rfl := Option.some.inj hstep
      refine .begins a ⟨force, sound, inUse, rfl⟩ hidle ?_ ?_
      · rw [begin]
        repeat' split
        all_goals rfl
      · rw [begin]
        repeat' split
        all_goals simp_all
    · cases hstep
  | stop =>
    obtain rfl := Option.some.inj hstep
    exact .stops rfl rfl
  | daemon db =>
    simp only [step] at hstep
    split at hstep
    · next hidle =>
      obtain rfl := Option.some.inj hstep
      exact .serves db rfl hidle hidle rfl
    · cases hstep
  | next torn stamp n =>
    rcases hs : s.pc with _ | a | ⟨a, st⟩ | ⟨a, _ | ⟨path, rest⟩⟩ | a | a | a | text | text | text |
      text | text <;> simp only [step, hs] at hstep
    · cases hstep
    · obtain rfl := Option.some.inj hstep
      exact .copies a torn stamp hs (by simpa [spares, hs] using hspares) rfl rfl
    · obtain ⟨db, hdb, rfl⟩ := Option.map_eq_some_iff.1 hstep
      exact .copied a db st hs hdb rfl rfl
    · obtain ⟨db, hdb, rfl⟩ := Option.map_eq_some_iff.1 hstep
      exact .places a db hs hdb rfl rfl
    · obtain rfl := Option.some.inj hstep
      exact .clears a path rest hs rfl rfl
    · obtain ⟨t, ht, rfl⟩ := Option.map_eq_some_iff.1 hstep
      exact .keeps .sites a.sites stamp n t (.inl ⟨rfl, a, rfl, hs, rfl⟩) ht rfl
    · obtain rfl := Option.some.inj hstep
      exact .writesSites a torn (.inl ⟨hs, rfl⟩) rfl
    · obtain rfl := Option.some.inj hstep
      refine .writesSites a a.sites (.inr ⟨hs, ?_⟩) rfl
      cases a.env with
      | none => exact .inl rfl
      | some text => exact .inr ⟨text, rfl⟩
    · obtain ⟨t, ht, rfl⟩ := Option.map_eq_some_iff.1 hstep
      exact .keeps .env text stamp n t (.inr ⟨rfl, hs, rfl⟩) ht rfl
    · obtain rfl := Option.some.inj hstep
      exact .writesTmp text none (.inl ⟨hs, rfl⟩) rfl
    · obtain rfl := Option.some.inj hstep
      exact .writesTmp text (some torn) (.inr (.inl ⟨hs, rfl⟩)) rfl
    · obtain rfl := Option.some.inj hstep
      exact .writesTmp text (some text) (.inr (.inr ⟨hs, rfl, rfl⟩)) rfl
    · obtain rfl := Option.some.inj hstep
      exact .replaces text hs rfl rfl

/-! ## What stays -/

/-- The files of a database that are still there are those yet to be removed, and the temporary file
is whole when it takes its name. -/
structure Orderly (s : DataDir α) : Prop where
  clear : ∀ a rest, s.pc = .clear a rest → rest <:+ [.item .db, .wal, .shm] ∧
    ∀ path ∈ [DataPath.item .db, .wal, .shm], path ∉ rest → s.file path = none
  tmp : ∀ text, s.pc = .replaceEnv text → s.file .envTmp = some text

omit [DecidableEq α] in
theorem orderly_of_idle (h : s.pc = .idle) : s.Orderly :=
  ⟨fun a rest hpc => by simp [h] at hpc, fun text hpc => by simp [h] at hpc⟩

theorem Orderly.step (h : s.Orderly) (hdoes : Does readText s s' e) : s'.Orderly := by
  cases hdoes with
  | begins a _ hidle hfile hpc =>
    refine ⟨fun a' rest hclear => ?_, fun text htmp => ?_⟩
    · obtain hpc | hpc | hpc | ⟨-, hpc⟩ := hpc <;> rw [hpc] at hclear <;> cases hclear
      exact ⟨List.suffix_refl _, fun path hpath hnot => absurd hpath hnot⟩
    · obtain hpc | hpc | hpc | ⟨-, hpc⟩ := hpc <;> simp [hpc] at htmp
  | stops _ hpc | serves _ _ _ hpc | replaces _ _ hpc => exact orderly_of_idle hpc
  | copies a torn stamp _ _ hpc | places a db _ _ hpc =>
    exact ⟨fun _ _ hclear => by simp [hpc] at hclear, fun _ htmp => by simp [hpc] at htmp⟩
  | copied a db stamp hfrom hdb hpc hfile =>
    refine ⟨fun a' rest hclear => ?_, fun text htmp => by simp [hpc] at htmp⟩
    rw [hpc] at hclear
    cases hclear
    exact ⟨List.suffix_refl _, fun path hpath hnot => absurd hpath hnot⟩
  | clears a path rest hfrom hpc hfile =>
    refine ⟨fun a' rest' hclear => ?_, fun text htmp => by simp [hpc] at htmp⟩
    rw [hpc] at hclear
    cases hclear
    obtain ⟨hsuffix, hgone⟩ := h.clear a (path :: rest) hfrom
    refine ⟨(List.suffix_cons path rest).trans hsuffix, fun other hother hnot => ?_⟩
    rw [hfile, file_unlink]
    split
    · rfl
    · next hne => exact hgone other hother (by simp [hne, hnot])
  | keeps i text stamp n t hfrom =>
    obtain ⟨-, a, -, -, hpc⟩ | ⟨-, -, hpc⟩ := hfrom <;>
      exact ⟨fun _ _ hclear => by simp [hpc] at hclear, fun _ htmp => by simp [hpc] at htmp⟩
  | writesSites a text hfrom =>
    obtain ⟨-, hpc⟩ | ⟨-, hpc | ⟨env, hpc⟩⟩ := hfrom <;>
      exact ⟨fun _ _ hclear => by simp [hpc] at hclear, fun _ htmp => by simp [hpc] at htmp⟩
  | writesTmp text content hfrom hfile =>
    obtain ⟨-, hpc⟩ | ⟨-, hpc⟩ | ⟨-, rfl, hpc⟩ := hfrom
    · exact ⟨fun _ _ hclear => by simp [hpc] at hclear, fun _ htmp => by simp [hpc] at htmp⟩
    · exact ⟨fun _ _ hclear => by simp [hpc] at hclear, fun _ htmp => by simp [hpc] at htmp⟩
    · refine ⟨fun _ _ hclear => by simp [hpc] at hclear, fun text' htmp => ?_⟩
      obtain rfl : text = text' := by simpa [hpc] using htmp
      rw [hfile]
      exact Function.update_self ..

/-- A file that is kept, and is not the copy that is being made. -/
def Kept (s : DataDir α) (i : Item) (stamp : String) (n : ℕ) (c : α) : Prop :=
  s.file (.kept i stamp n) = some c ∧ ∀ a, s.pc = .copying a stamp → ¬(i = .db ∧ n = 0)

/-- What is kept stays. -/
theorem Kept.step (h : s.Kept i stamp n c) (horderly : s.Orderly) (hdoes : Does readText s s' e) :
    s'.Kept i stamp n c := by
  obtain ⟨hkept, hnot⟩ := h
  cases hdoes with
  | begins a _ hidle hfile hpc =>
    refine ⟨hfile ▸ hkept, fun a' hcopying => ?_⟩
    obtain hpc | hpc | hpc | ⟨-, hpc⟩ := hpc <;> simp [hpc] at hcopying
  | stops hfile hpc => exact ⟨hfile ▸ hkept, by simp [hpc]⟩
  | serves db _ _ hpc hfile | places a db _ _ hpc hfile =>
    exact ⟨by simpa [hfile] using hkept, by simp [hpc]⟩
  | copies a torn stamp' hfrom hfree hpc hfile =>
    have hne : ¬(DataPath.kept i stamp n = .kept .db stamp' 0) := fun heq => by
      rw [heq, hfree] at hkept
      cases hkept
    refine ⟨by rwa [hfile, file_put, if_neg hne], fun a' hcopying hzero => hne ?_⟩
    obtain ⟨-, rfl⟩ : a = a' ∧ stamp' = stamp := by simpa [hpc] using hcopying
    rw [hzero.1, hzero.2]
  | copied a db stamp' hfrom hdb hpc hfile =>
    have hne : ¬(DataPath.kept i stamp n = .kept .db stamp' 0) := fun heq => by
      obtain ⟨rfl, rfl, rfl⟩ := DataPath.kept.inj heq
      exact hnot a hfrom ⟨rfl, rfl⟩
    exact ⟨by rwa [hfile, file_put, if_neg hne], by simp [hpc]⟩
  | clears a path rest hfrom hpc hfile =>
    have hmem := (horderly.clear a _ hfrom).1.subset (List.mem_cons_self (a := path) (l := rest))
    have hne : ¬(DataPath.kept i stamp n = path) := fun heq => by simp [← heq] at hmem
    exact ⟨by rwa [hfile, file_unlink, if_neg hne], by simp [hpc]⟩
  | keeps j text stamp' n' t hfrom hkeep hfile =>
    refine ⟨?_, fun a' hcopying => ?_⟩
    · obtain ⟨rfl, -⟩ | ⟨-, hfree, rfl⟩ := keepReference_cases hkeep
      · exact hfile ▸ hkept
      · have hne : ¬(DataPath.kept i stamp n = .kept j stamp' n') := fun heq => by
          rw [heq, hfree] at hkept
          cases hkept
        rwa [hfile, file_rename, if_neg (by simp), if_neg hne]
    · obtain ⟨-, b, -, -, hpc⟩ | ⟨-, -, hpc⟩ := hfrom <;> simp [hpc] at hcopying
  | writesSites a text hfrom hfile =>
    refine ⟨by simpa [hfile] using hkept, fun a' hcopying => ?_⟩
    obtain ⟨-, hpc⟩ | ⟨-, hpc | ⟨env, hpc⟩⟩ := hfrom <;> simp [hpc] at hcopying
  | writesTmp text content hfrom hfile =>
    refine ⟨?_, fun a' hcopying => ?_⟩
    · rwa [hfile, Function.update_of_ne (by simp)]
    · obtain ⟨-, hpc⟩ | ⟨-, hpc⟩ | ⟨-, -, hpc⟩ := hfrom <;> simp [hpc] at hcopying
  | replaces text hfrom hpc hfile => exact ⟨by simpa [hfile] using hkept, by simp [hpc]⟩

/-- What was in the file of an item is kept, or still there. -/
def Holds (readText : α → α) (s : DataDir α) (i : Item) (c : α) : Prop :=
  (∃ stamp n, s.Kept i stamp n c) ∨ s.file (.item i) = some c ∧ s.pc.Spares readText i c

/-- The sites do not read as those of the archive. -/
def Apart (readText : α → α) (s : DataDir α) (i : Item) (c : α) : Prop :=
  i = .sites → ∀ a, s.pc.archive = some a → a.sites ≠ readText c

/-- An item that is replaced is kept first, but for its line ends. -/
theorem Holds.step (h : s.Holds readText i c) (horderly : s.Orderly)
    (hapart : s.Apart readText i c) (hserves : i = .db → ∀ db, e ≠ .daemon db)
    (hdoes : Does readText s s' e) :
    s'.Holds readText i c ∨ i = .env ∧ s'.Holds readText i (readText c) := by
  obtain ⟨stamp, n, hkept⟩ | ⟨hfile, hpc⟩ := h
  · exact .inl (.inl ⟨stamp, n, hkept.step horderly hdoes⟩)
  by_cases henv : i = .env ∧ ∃ text, s.pc = .replaceEnv text ∧ s'.pc = .idle ∧
      s'.file = (s.rename .envTmp (.item .env)).file
  · obtain ⟨rfl, text, hfrom, hpc', hfile'⟩ := henv
    rw [hfrom] at hpc
    refine .inr ⟨rfl, .inr ⟨?_, by rw [hpc']; trivial⟩⟩
    rw [hfile', file_rename, if_neg (by simp), if_pos rfl, horderly.tmp text hfrom, hpc rfl]
  refine .inl ?_
  cases hdoes with
  | begins a _ hidle hfile' hpc' =>
    refine .inr ⟨hfile' ▸ hfile, ?_⟩
    obtain hpc' | hpc' | hpc' | ⟨hnone, hpc'⟩ := hpc' <;> rw [hpc']
    · trivial
    · trivial
    · trivial
    · rintro rfl
      simp [hnone] at hfile
  | stops hfile' hpc' => exact .inr ⟨hfile' ▸ hfile, hpc' ▸ trivial⟩
  | serves db he hidle hpc' hfile' =>
    have hi : i ≠ .db := fun hi => hserves hi db he
    exact .inr ⟨by simpa [hfile', hi] using hfile, hpc' ▸ trivial⟩
  | copies a torn stamp hfrom _ hpc' hfile' =>
    exact .inr ⟨by simpa [hfile'] using hfile, hpc' ▸ trivial⟩
  | copied a db stamp hfrom hdb hpc' hfile' =>
    by_cases hi : i = .db
    · subst hi
      obtain rfl := Option.some.inj (hdb.symm.trans hfile)
      exact .inl ⟨stamp, 0, by simp [hfile'], by simp [hpc']⟩
    · exact .inr ⟨by simpa [hfile'] using hfile, hpc' ▸ hi⟩
  | clears a path rest hfrom hpc' hfile' =>
    rw [hfrom] at hpc
    have hmem := (horderly.clear a _ hfrom).1.subset (List.mem_cons_self (a := path) (l := rest))
    have hne : ¬(DataPath.item i = path) := fun heq => by
      rw [← heq] at hmem
      simp at hmem
      exact hpc hmem
    exact .inr ⟨by rwa [hfile', file_unlink, if_neg hne], hpc' ▸ hpc⟩
  | places a db hfrom hdb hpc' hfile' =>
    rw [hfrom] at hpc
    have hne : ¬(DataPath.item i = .item .db) := fun heq => hpc (DataPath.item.inj heq)
    exact .inr ⟨by rwa [hfile', file_put, if_neg hne], hpc' ▸ trivial⟩
  | keeps j text stamp n t hfrom hkeep hfile' =>
    by_cases hij : i = j
    · subst hij
      obtain ⟨rfl, hsame⟩ | ⟨-, -, rfl⟩ := keepReference_cases hkeep
      · have htext := hsame c hfile
        obtain ⟨hi, a, rfl, hpc₀, -⟩ | ⟨hi, -, hpc'⟩ := hfrom
        · exact absurd htext.symm (hapart hi a (by rw [hpc₀]; rfl))
        · exact .inr ⟨hfile' ▸ hfile, by rw [hpc']; exact fun _ => htext⟩
      · refine .inl ⟨stamp, n, by simp [hfile', hfile], fun a hcopying => ?_⟩
        obtain ⟨-, b, -, -, hpc'⟩ | ⟨-, -, hpc'⟩ := hfrom <;> simp [hpc'] at hcopying
    · refine .inr ⟨?_, ?_⟩
      · obtain ⟨rfl, -⟩ | ⟨-, -, rfl⟩ := keepReference_cases hkeep
        · exact hfile' ▸ hfile
        · simpa [hfile', hij] using hfile
      · obtain ⟨rfl, b, -, -, hpc'⟩ | ⟨rfl, -, hpc'⟩ := hfrom <;> rw [hpc']
        · exact hij
        · exact fun hi => absurd hi hij
  | writesSites a text hfrom hfile' =>
    have hi : i ≠ .sites := by
      obtain ⟨hpc₀, -⟩ | ⟨hpc₀, -⟩ := hfrom <;> rw [hpc₀] at hpc <;> exact hpc
    refine .inr ⟨by simpa [hfile', hi] using hfile, ?_⟩
    obtain ⟨-, hpc'⟩ | ⟨-, hpc' | ⟨env, hpc'⟩⟩ := hfrom <;> rw [hpc']
    · exact hi
    · trivial
    · trivial
  | writesTmp text content hfrom hfile' =>
    refine .inr ⟨by rwa [hfile', Function.update_of_ne (by simp)], ?_⟩
    obtain ⟨hpc₀, hpc'⟩ | ⟨hpc₀, hpc'⟩ | ⟨hpc₀, -, hpc'⟩ := hfrom <;> rw [hpc₀] at hpc <;>
      rw [hpc'] <;> exact hpc
  | replaces text hfrom hpc' hfile' =>
    have hi : i ≠ .env := fun hi => henv ⟨hi, text, hfrom, hpc', hfile'⟩
    exact .inr ⟨by simpa [hfile', hi] using hfile, hpc' ▸ trivial⟩

theorem Apart.step (h : s.Apart readText i c)
    (hsites : i = .sites → ∀ a force sound inUse, e = .restore a force sound inUse →
      a.sites ≠ readText c)
    (hdoes : Does readText s s' e) : s'.Apart readText i c := by
  intro hi a ha
  have hold := h hi a
  cases hdoes with
  | begins b he _ _ hpc =>
    obtain ⟨force, sound, inUse, he⟩ := he
    obtain hpc | hpc | hpc | ⟨-, hpc⟩ := hpc <;> rw [hpc] at ha <;> cases ha <;>
      exact hsites hi _ force sound inUse he
  | stops _ hpc | serves _ _ _ hpc | replaces _ _ hpc =>
    rw [hpc] at ha
    cases ha
  | copies b _ _ hfrom _ hpc | copied b _ _ hfrom _ hpc | clears b _ _ hfrom hpc
  | places b _ hfrom _ hpc =>
    rw [hpc] at ha
    rw [hfrom] at hold
    exact hold ha
  | keeps j text _ _ _ hfrom =>
    obtain ⟨-, b, -, hfrom, hpc⟩ | ⟨-, -, hpc⟩ := hfrom <;> rw [hpc] at ha
    · rw [hfrom] at hold
      exact hold ha
    · cases ha
  | writesSites b text hfrom =>
    obtain ⟨hfrom, hpc⟩ | ⟨-, hpc | ⟨env, hpc⟩⟩ := hfrom <;> rw [hpc] at ha
    · rw [hfrom] at hold
      exact hold ha
    · cases ha
    · cases ha
  | writesTmp text content hfrom =>
    obtain ⟨-, hpc⟩ | ⟨-, hpc⟩ | ⟨-, -, hpc⟩ := hfrom <;> rw [hpc] at ha <;> cases ha

/-- The content, or what a text is without its own line ends. -/
def Alike (readText : α → α) (i : Item) (c c' : α) : Prop := c' = c ∨ i = .env ∧ c' = readText c

/-- Over any number of restores, wherever they stop, as long as no copy of a database takes the name
of another : what was in a file is there still or is kept beside it, but for what the daemon writes
to the database in between, for sites that are written again over the same, and for the line ends of
`restored.env`. What is kept stays, and the database is put where no WAL of another is beside it. -/
theorem nothing_lost (hread : ∀ c, readText (readText c) = readText c) {s₀ : DataDir α}
    {es : List (RestoreEvent α)} (hidle : s₀.pc = .idle)
    (hrun : run (guarded (step readText) spares) s₀ es = some s) :
    (∀ i c, s₀.file (.item i) = some c →
      (i = .db → ∀ db, RestoreEvent.daemon db ∉ es) →
      (i = .sites → ∀ a force sound inUse, .restore a force sound inUse ∈ es →
        a.sites ≠ readText c) →
      ∃ c', Alike readText i c c' ∧
        (s.file (.item i) = some c' ∨ ∃ stamp n, s.file (.kept i stamp n) = some c')) ∧
    (∀ i stamp n c, s₀.file (.kept i stamp n) = some c → s.file (.kept i stamp n) = some c) ∧
    ∀ a, s.pc = .clear a [] → s.file .wal = none ∧ s.file .shm = none := by
  have hstart : s₀.Orderly := orderly_of_idle hidle
  have hall : s.Orderly ∧ (∀ i stamp n c, s₀.Kept i stamp n c → s.Kept i stamp n c) ∧
      ∀ i c, s₀.file (.item i) = some c → (i = .db → ∀ db, RestoreEvent.daemon db ∉ es) →
        (i = .sites → ∀ a force sound inUse, .restore a force sound inUse ∈ es →
          a.sites ≠ readText c) →
          ∃ c', Alike readText i c c' ∧ s.Holds readText i c' ∧ s.Apart readText i c' := by
    induction es using List.reverseRecOn generalizing s with
    | nil =>
      obtain rfl := Option.some.inj hrun
      refine ⟨hstart, fun _ _ _ _ => id, fun i c hfile _ _ =>
        ⟨c, .inl rfl, .inr ⟨hfile, ?_⟩, fun _ a ha => ?_⟩⟩
      · rw [hidle]
        trivial
      · rw [hidle] at ha
        cases ha
    | append_singleton es e ih =>
      rw [run_append] at hrun
      obtain ⟨t, ht, hlast⟩ := Option.bind_eq_some_iff.1 hrun
      have hstep : guarded (step readText) spares t e = some s := by simpa [run] using hlast
      obtain ⟨hspares, hstep⟩ := guarded_eq_some.1 hstep
      have hdoes := does_step hspares hstep
      obtain ⟨horderly, hkept, hholds⟩ := ih ht
      refine ⟨horderly.step hdoes, fun i stamp n c h => (hkept i stamp n c h).step horderly hdoes,
        fun i c hfile hserves hsites => ?_⟩
      obtain ⟨c', halike, hhold, hapart⟩ := hholds i c hfile
        (fun hi db hmem => hserves hi db (List.mem_append_left _ hmem))
        fun hi a force sound inUse hmem =>
          hsites hi a force sound inUse (List.mem_append_left _ hmem)
      have hsame : readText c' = readText c := by
        obtain rfl | ⟨-, rfl⟩ := halike
        · rfl
        · exact hread c
      have hlater : s.Apart readText i c' := hapart.step (fun hi a force sound inUse he => by
        rw [hsame]
        exact hsites hi a force sound inUse (by simp [he])) hdoes
      obtain hhold | ⟨rfl, hhold⟩ := hhold.step horderly hapart
        (fun hi db he => hserves hi db (by simp [he])) hdoes
      · exact ⟨c', halike, hhold, hlater⟩
      · exact ⟨readText c', .inr ⟨rfl, hsame⟩, hhold, fun hi => by cases hi⟩
  obtain ⟨horderly, hkept, hholds⟩ := hall
  refine ⟨fun i c hfile hserves hsites => ?_, fun i stamp n c hfile => ?_, fun a hpc => ?_⟩
  · obtain ⟨c', halike, ⟨stamp, n, hkept, -⟩ | ⟨hsame, -⟩, -⟩ := hholds i c hfile hserves hsites
    · exact ⟨c', halike, .inr ⟨stamp, n, hkept⟩⟩
    · exact ⟨c', halike, .inl hsame⟩
  · exact (hkept i stamp n c ⟨hfile, fun a hpc => by simp [hidle] at hpc⟩).1
  · have hgone := (horderly.clear a [] hpc).2
    exact ⟨hgone .wal (by simp) (by simp), hgone .shm (by simp) (by simp)⟩

/-! ### Line ends -/

/-- What `read_text` makes of the line ends of a file. -/
def universalNewlines : List Char → List Char
  | [] => []
  | '\r' :: '\n' :: cs => '\n' :: universalNewlines cs
  | c :: cs => (if c = '\r' then '\n' else c) :: universalNewlines cs

theorem universalNewlines_cons {c : Char} (hc : c ≠ '\r') (cs : List Char) :
    universalNewlines (c :: cs) = c :: universalNewlines cs := by
  rw [universalNewlines, if_neg hc]
  rintro cs' rfl
  exact absurd rfl hc

theorem universalNewlines_twice (text : List Char) :
    universalNewlines (universalNewlines text) = universalNewlines text := by
  fun_induction universalNewlines text with
  | case1 => rfl
  | case2 cs ih => rw [universalNewlines_cons (by decide), ih]
  | case3 c cs _ ih =>
    rw [universalNewlines_cons ?_, ih]
    split
    · decide
    · assumption

/-- A backup of a database, sites and `.env`. -/
def backupOf (db sites env : String) : Archive (List Char) :=
  ⟨some db.toList, sites.toList, some env.toList⟩

/-- A database, and a `restored.env` with the line ends of Windows. -/
def usedDir : DataDir (List Char) where
  file path :=
    if path = .item .db then some "db0".toList
    else if path = .item .env then some "A=0\r\n".toList
    else none

/-- One restore stops after the old database is gone, the next one goes through. -/
def stoppedRestore : List (RestoreEvent (List Char)) :=
  [.restore (backupOf "db1" "[1]" "A=1\n") true true false, .next [] "T1" 0, .next [] "T1" 0,
    .next [] "T1" 0, .stop, .restore (backupOf "db2" "[2]" "A=2\n") true true false] ++
    List.replicate 12 (.next [] "T2" 0)

theorem nothing_lost_stopped : ∃ s,
    run (guarded (step universalNewlines) spares) usedDir stoppedRestore = some s ∧
    s.file (.item .db) = some "db2".toList ∧
    (∃ stamp n, s.file (.kept .db stamp n) = some "db0".toList) ∧
    ∃ stamp n c, Alike universalNewlines .env "A=0\r\n".toList c ∧
      s.file (.kept .env stamp n) = some c := by
  have hrun : (run (guarded (step universalNewlines) spares) usedDir stoppedRestore).map
      (fun s => (s.file (.item .db), s.file (.item .env))) =
      some (some "db2".toList, some "A=2\n".toList) := by
    decide +kernel
  obtain ⟨s, hs, heq⟩ := Option.map_eq_some_iff.1 hrun
  obtain ⟨hdb, henv⟩ := Prod.mk.inj heq
  obtain ⟨hholds, -, -⟩ := nothing_lost universalNewlines_twice rfl hs
  refine ⟨s, hs, hdb, ?_, ?_⟩
  · obtain ⟨c, rfl | ⟨hi, -⟩, hfile | hkept⟩ :=
      hholds .db "db0".toList (by decide +kernel) (fun _ db => by simp [stoppedRestore]) (by simp)
    · simp [hdb] at hfile
    · exact hkept
    · cases hi
    · cases hi
  · obtain ⟨c, halike, hfile | ⟨stamp, n, hkept⟩⟩ :=
      hholds .env "A=0\r\n".toList (by decide +kernel) (by simp) (by simp)
    · obtain rfl | ⟨-, rfl⟩ := halike <;> exact absurd (henv.symm.trans hfile) (by decide +kernel)
    · exact ⟨stamp, n, c, halike, hkept⟩

/-- A `restored.env` that differs in its line ends only is not kept. -/
theorem line_ends_lost : ∃ s,
    run (step universalNewlines) usedDir
      (.restore ⟨none, "[1]".toList, some "A=0\n".toList⟩ true true false ::
        List.replicate 8 (.next [] "T1" 0)) = some s ∧
    s.file (.item .env) = some "A=0\n".toList ∧ s.file (.kept .env "T1" 0) = none := by
  have hrun : (run (step universalNewlines) usedDir
      (.restore ⟨none, "[1]".toList, some "A=0\n".toList⟩ true true false ::
        List.replicate 8 (.next [] "T1" 0))).map
      (fun s => (s.file (.item .env), s.file (.kept .env "T1" 0))) =
      some (some "A=0\n".toList, none) := by
    decide +kernel
  obtain ⟨s, hs, heq⟩ := Option.map_eq_some_iff.1 hrun
  exact ⟨s, hs, Prod.mk.inj heq⟩

/-- Two forced restores in one second : the copy of the first database is overwritten. -/
theorem copy_overwritten : ∃ s,
    run (step universalNewlines) usedDir
      (.restore ⟨some "db1".toList, "[]".toList, none⟩ true true false ::
        List.replicate 9 (.next [] "T1" 0) ++
        .restore ⟨some "db2".toList, "[]".toList, none⟩ true true false ::
          List.replicate 9 (.next [] "T1" 0)) = some s ∧
    s.file (.item .db) = some "db2".toList ∧ s.file (.kept .db "T1" 0) = some "db1".toList := by
  have hrun : (run (step universalNewlines) usedDir
      (.restore ⟨some "db1".toList, "[]".toList, none⟩ true true false ::
        List.replicate 9 (.next [] "T1" 0) ++
        .restore ⟨some "db2".toList, "[]".toList, none⟩ true true false ::
          List.replicate 9 (.next [] "T1" 0))).map
      (fun s => (s.file (.item .db), s.file (.kept .db "T1" 0))) =
      some (some "db2".toList, some "db1".toList) := by
    decide +kernel
  obtain ⟨s, hs, heq⟩ := Option.map_eq_some_iff.1 hrun
  exact ⟨s, hs, Prod.mk.inj heq⟩

end DataDir

end Restore

end Mtrtk
