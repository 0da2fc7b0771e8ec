import Mtrtk.Publish

/-!
# The manifest of an export

`_publish` moves the manifest last, so that a manifest in the directory describes files that are
there. To overwrite, it sets the old files aside in the same order, the old manifest last as well :
until then that manifest describes files that are gone (`overwritten_manifest`).

In every other case the law is kept between any two file operations (`describes_iff`). Until the
new manifest is there the old one, if it is there, describes none of the files that are moved
(`Quiet`).
-/

namespace Mtrtk

variable {γ : Type*} (lists : γ → List Str)

/-- Every file a manifest lists is there. -/
def Describes (out : Str → Option (Entry γ)) : Prop :=
  ∀ manifest, out manifestName = some (.file manifest) →
    ∀ name ∈ lists manifest, pathExists (out name) = true

/-- The files to be published, the manifest behind them, and it lists none but these. -/
structure ManifestLast (names data : List Str) (stage : Str → Option γ) : Prop where
  names_eq : names = data ++ [manifestName]
  notMem : manifestName ∉ data
  listed : ∀ manifest, stage manifestName = some manifest → lists manifest ⊆ names

/-- The old manifest is as it was or gone, and so is what is not published as it was. -/
structure Quiet (names : List Str) (out now : Str → Option (Entry γ)) : Prop where
  manifest : now manifestName = none ∨ now manifestName = out manifestName
  frame : ∀ name ∉ names, now name = out name

variable {names data : List Str} {stage : Str → Option γ} {out now : Str → Option (Entry γ)}
  {s s' : Publishing γ}

/-- The old manifest describes nothing that is published but itself. -/
def Apart (data : List Str) (out : Str → Option (Entry γ)) : Prop :=
  ∀ manifest, out manifestName = some (.file manifest) → ∀ name ∈ lists manifest, name ∉ data

variable {lists}

theorem Quiet.describes (hlast : ManifestLast lists names data stage) (hlaw : Describes lists out)
    (hapart : Apart lists data out) (h : Quiet names out now) : Describes lists now := by
  intro manifest hmanifest name hname
  have hold : out manifestName = some (.file manifest) := by
    rcases h.manifest with hnone | hsame
    · rw [hnone] at hmanifest
      cases hmanifest
    · rwa [← hsame]
  by_cases heq : name = manifestName
  · rw [heq, hmanifest]
    rfl
  · have hfresh : name ∉ names := by
      rw [hlast.names_eq]
      simp [hapart manifest hold name hname, heq]
    rw [h.frame name hfresh]
    exact hlaw manifest hold name hname

/-! ## Between two file operations -/

/-- What is set aside and what is moved are published files, the staging directory has no link that
leads nowhere, and the two manifests are told apart. -/
structure Tidy (names : List Str) (stage : Str → Option γ) (out : Str → Option (Entry γ))
    (s : Publishing γ) : Prop where
  setAside : s.setAside ⊆ names
  moved : s.moved ⊆ names
  whole : ∀ name new, s.stage name = some new → pathExists (some new) = true
  held : manifestName ∈ s.setAside → ∀ old, s.stage (oldName manifestName) = some old →
    out manifestName = some old
  staged : ∀ new, s.stage manifestName = some new → (stage manifestName).map .file = some new

/-- All files are there, the manifest the new one. -/
def Complete (names : List Str) (stage : Str → Option γ) (s : Publishing γ) : Prop :=
  (∀ name ∈ names, pathExists (s.out name) = true) ∧
    ∀ manifest, s.out manifestName = some (.file manifest) → stage manifestName = some manifest

/-- The directory in each of the phases. -/
def ManifestPhase (names : List Str) (stage : Str → Option γ) (out : Str → Option (Entry γ))
    (s : Publishing γ) : Prop :=
  match s.pc with
  | .aside todo => Quiet names out s.out ∧ todo ⊆ names ∧ s.moved = []
  | .move todo => names = s.moved ++ todo ∧ (∀ name ∈ s.moved, pathExists (s.out name) = true) ∧
      (todo ≠ [] → Quiet names out s.out) ∧ (todo = [] → Complete names stage s)
  | .unmove todo => Quiet names out s.out ∧ todo ⊆ names
  | .restore todo => Quiet names out s.out ∧ todo ⊆ s.setAside
  | .published => Complete names stage s
  | .failed => Quiet names out s.out

theorem oldName_ne_manifestName (name : Str) : oldName name ≠ manifestName := by
  intro h
  have hhead : some '.' = some 'm' := congrArg List.head? h
  exact absurd hhead (by decide)

theorem Quiet.erase (h : Quiet names out now) {name : Str} (hname : name ∈ names) :
    Quiet names out (Function.update now name none) where
  manifest := by
    by_cases heq : manifestName = name
    · exact .inl (by simp [heq])
    · simpa [heq] using h.manifest
  frame a ha := by
    have hne : a ≠ name := fun heq => ha (heq ▸ hname)
    simpa [hne] using h.frame a ha

/-- A file that is put in its place is not the manifest, or the old one. -/
theorem Quiet.put (h : Quiet names out now) {name : Str} (hname : name ∈ names) {entry : Entry γ}
    (hold : name = manifestName → out manifestName = some entry) :
    Quiet names out (Function.update now name (some entry)) where
  manifest := by
    by_cases heq : name = manifestName
    · exact .inr (by simp [heq, hold heq])
    · simpa [Ne.symm heq] using h.manifest
  frame a ha := by
    have hne : a ≠ name := fun heq => ha (heq ▸ hname)
    simpa [hne] using h.frame a ha

/-- A manifest that is taken out of the staging directory stays what it was. -/
theorem Tidy.clear (h : Tidy names stage out s) (name : Str) {moved' : List Str}
    (hmoved : moved' ⊆ names) (out' : Str → Option (Entry γ)) (pc : PublishPc) :
    Tidy names stage out
      { s with stage := Function.update s.stage name none, out := out', moved := moved', pc } where
  setAside := h.setAside
  moved := hmoved
  whole a new hnew := by
    by_cases heq : a = name
    · simp [heq] at hnew
    · exact h.whole a new (by simpa [heq] using hnew)
  held hmem old hold := by
    by_cases heq : oldName manifestName = name
    · simp [heq] at hold
    · exact h.held hmem old (by simpa [heq] using hold)
  staged new hnew := by
    by_cases heq : manifestName = name
    · simp [heq] at hnew
    · exact h.staged new (by simpa [heq] using hnew)

theorem Tidy.set (h : Tidy names stage out s) {name : Str} {rest : List Str}
    (hquiet : Quiet names out s.out) (hname : name ∈ names)
    (hout : pathExists (s.out name) = true) :
    Tidy names stage out { s with
      stage := Function.update s.stage (oldName name) (s.out name)
      out := Function.update s.out name none
      setAside := s.setAside ++ [name]
      pc := .aside rest } where
  setAside := List.append_subset.2 ⟨h.setAside, by simpa using hname⟩
  moved := h.moved
  whole a new hnew := by
    by_cases heq : a = oldName name
    · have hnew : s.out name = some new := by simpa [heq] using hnew
      rwa [hnew] at hout
    · exact h.whole a new (by simpa [heq] using hnew)
  held hmem old hold := by
    by_cases heq : manifestName = name
    · subst heq
      have hold : s.out manifestName = some old := by simpa using hold
      rw [← hold]
      exact (hquiet.manifest.resolve_left (by simp [hold])).symm
    · have hne : oldName manifestName ≠ oldName name := fun h => heq (oldName_injective h)
      refine h.held ?_ old (by simpa [hne] using hold)
      simpa [heq] using hmem
  staged new hnew :=
    h.staged new (by simpa [(oldName_ne_manifestName name).symm] using hnew)

/-- The manifest is the last that is moved. -/
theorem ManifestLast.last (hlast : ManifestLast lists names data stage) {moved rest : List Str}
    {name : Str} (hsplit : names = moved ++ name :: rest) :
    (rest = [] ∧ name = manifestName) ∨ rest ≠ [] ∧ name ≠ manifestName := by
  rw [hlast.names_eq] at hsplit
  rcases List.eq_nil_or_concat rest with rfl | ⟨rest, a, rfl⟩
  · exact .inl ⟨rfl, (List.append_inj' hsplit rfl).2 |> List.singleton_inj.1 |> Eq.symm⟩
  · have hsplit' : data ++ [manifestName] = (moved ++ name :: rest) ++ [a] := by simpa using hsplit
    have hdata := (List.append_inj' hsplit' rfl).1
    exact .inr ⟨by simp, fun heq => hlast.notMem (by simp [hdata, heq])⟩

/-- Every phase is entered as it should be. -/
theorem ManifestPhase.step (hlast : ManifestLast lists names data stage)
    (hinv : Tidy names stage out s ∧ ManifestPhase names stage out s)
    (h : PublishStep names s s') :
    Tidy names stage out s' ∧ ManifestPhase names stage out s' := by
  obtain ⟨htidy, hphase⟩ := hinv
  have htidy' : ∀ (out' : Str → Option (Entry γ)) (pc : PublishPc),
      Tidy names stage out { s with out := out', pc } :=
    fun out' pc => ⟨htidy.setAside, htidy.moved, htidy.whole, htidy.held, htidy.staged⟩
  unfold ManifestPhase at hphase
  cases h with
  | asideEnd hpc =>
    rw [hpc] at hphase
    obtain ⟨hquiet, -, hmoved⟩ := hphase
    refine ⟨htidy' _ _, by simp [hmoved], by simp [hmoved], fun _ => hquiet, fun hnil => ?_⟩
    simp [hlast.names_eq] at hnil
  | absent hpc hout =>
    rw [hpc] at hphase
    exact ⟨htidy' _ _, hphase.1,
      List.Subset.trans (List.subset_cons_self _ _) hphase.2.1, hphase.2.2⟩
  | asideFails hpc =>
    rw [hpc] at hphase
    exact ⟨htidy' _ _, hphase.1, htidy.moved⟩
  | setsAside hpc hout =>
    rw [hpc] at hphase
    have hname := hphase.2.1 List.mem_cons_self
    exact ⟨htidy.set hphase.1 hname hout, hphase.1.erase hname,
      List.Subset.trans (List.subset_cons_self _ _) hphase.2.1, hphase.2.2⟩
  | moveEnd hpc =>
    rw [hpc] at hphase
    exact ⟨htidy' _ _, hphase.2.2.2 rfl⟩
  | moveFails hpc =>
    rw [hpc] at hphase
    exact ⟨htidy' _ _, hphase.2.2.1 (List.cons_ne_nil _ _), htidy.moved⟩
  | moves hpc hstage =>
    rename_i name rest new
    rw [hpc] at hphase
    obtain ⟨hsplit, hthere, hquiet, -⟩ := hphase
    have hquiet := hquiet (List.cons_ne_nil _ _)
    have hname : name ∈ names := by simp [hsplit]
    have hmoved : s.moved ++ [name] ⊆ names :=
      List.append_subset.2 ⟨htidy.moved, by simpa using hname⟩
    have hthere' : ∀ a ∈ s.moved ++ [name],
        pathExists (Function.update s.out name (some new) a) = true := fun a ha => by
      by_cases heq : a = name
      · simpa [heq] using htidy.whole name new hstage
      · simpa [heq] using hthere a (by simpa [heq] using ha)
    refine ⟨htidy.clear name hmoved _ _, by simpa using hsplit, hthere', fun hrest => ?_,
      fun hrest => ⟨fun a ha => hthere' a ?_, fun manifest hmanifest => ?_⟩⟩
    · obtain ⟨hnil, -⟩ | ⟨-, hne⟩ := hlast.last hsplit
      · exact absurd hnil hrest
      · exact hquiet.put hname fun heq => absurd heq hne
    · rw [hsplit, hrest] at ha
      exact ha
    · obtain ⟨-, rfl⟩ | ⟨hne, -⟩ := hlast.last hsplit
      · obtain rfl : new = .file manifest := by simpa using hmanifest
        simpa using htidy.staged _ hstage
      · exact absurd hrest hne
  | unmoveEnd hpc =>
    rw [hpc] at hphase
    exact ⟨htidy' _ _, hphase.1, List.Subset.refl _⟩
  | unmoves hpc =>
    rw [hpc] at hphase
    exact ⟨htidy' _ _, hphase.1.erase (hphase.2 List.mem_cons_self),
      List.Subset.trans (List.subset_cons_self _ _) hphase.2⟩
  | restoreEnd hpc =>
    rw [hpc] at hphase
    exact ⟨htidy' _ _, hphase.1⟩
  | lost hpc hstage =>
    rw [hpc] at hphase
    exact ⟨htidy' _ _, hphase.1, List.Subset.trans (List.subset_cons_self _ _) hphase.2⟩
  | restores hpc hstage =>
    rename_i name rest old
    rw [hpc] at hphase
    have haside := hphase.2 List.mem_cons_self
    refine ⟨htidy.clear _ htidy.moved _ _, hphase.1.put (htidy.setAside haside) fun heq => ?_,
      List.Subset.trans (List.subset_cons_self _ _) hphase.2⟩
    exact htidy.held (heq ▸ haside) old (heq ▸ hstage)

/-- Between two file operations the law holds. -/
theorem ManifestPhase.describes (hlast : ManifestLast lists names data stage)
    (hlaw : Describes lists out) (hapart : Apart lists data out)
    (h : ManifestPhase names stage out s) : Describes lists s.out := by
  have hquiet : Quiet names out s.out → Describes lists s.out := fun h =>
    h.describes hlast hlaw hapart
  have hcomplete : Complete names stage s → Describes lists s.out := fun h manifest hm name hn =>
    h.1 name (hlast.listed manifest (h.2 manifest hm) hn)
  unfold ManifestPhase at h
  split at h
  · exact hquiet h.1
  · next todo _ =>
    by_cases hnil : todo = []
    · exact hcomplete (h.2.2.2 hnil)
    · exact hquiet (h.2.2.1 hnil)
  · exact hquiet h.1
  · exact hquiet h.1
  · exact hcomplete h
  · exact hquiet h

theorem ManifestPhase.start (hlast : ManifestLast lists names data stage) (overwrite : Bool) :
    Tidy names stage out (publishStart names overwrite stage out) ∧
      ManifestPhase names stage out (publishStart names overwrite stage out) := by
  have htidy : Tidy names stage out (publishStart names overwrite stage out) :=
    { setAside := List.nil_subset _
      moved := List.nil_subset _
      whole := fun name new hnew => by
        obtain ⟨file, -, rfl⟩ := Option.map_eq_some_iff.1 hnew
        rfl
      held := fun hmanifest => absurd hmanifest List.not_mem_nil
      staged := fun _ => id }
  have hquiet : Quiet names out out := ⟨.inr rfl, fun _ _ => rfl⟩
  refine ⟨htidy, ?_⟩
  rcases overwrite with _ | _
  · by_cases hany : names.any (fun name => pathExists (out name)) = true
    · simpa [ManifestPhase, publishStart, hany] using hquiet
    · simp only [ManifestPhase, publishStart, hany]
      refine ⟨rfl, fun _ hname => absurd hname List.not_mem_nil, fun _ => hquiet, fun hnil => ?_⟩
      simp [hlast.names_eq] at hnil
  · exact ⟨hquiet, List.Subset.refl _, rfl⟩

/-- Without `overwrite` there is no old manifest, or nothing is done. -/
theorem describes_of_apart (hlast : ManifestLast lists names data stage)
    (hlaw : Describes lists out) {overwrite : Bool}
    (hapart : overwrite = true → Apart lists data out)
    (h : Reachable (publishStep names) (publishStart names overwrite stage out) s) :
    Describes lists s.out := by
  by_cases hrefused : overwrite = false ∧ names.any (fun name => pathExists (out name)) = true
  · obtain ⟨rfl, hany⟩ := hrefused
    have hstart : s.pc = .failed ∧ s.out = out := by
      refine h.invariant (fun s => s.pc = .failed ∧ s.out = out) ?_ fun t i t' _ ht hstep => ?_
      · simp [publishStart, hany]
      · simp [publishStep, ht.1] at hstep
    rwa [hstart.2]
  · have hphase : Tidy names stage out s ∧ ManifestPhase names stage out s :=
      h.invariant _ (ManifestPhase.start hlast overwrite) fun t i t' _ ht hstep =>
        ManifestPhase.step hlast ht (publishStep_step hstep)
    refine hphase.2.describes hlast hlaw ?_
    rcases overwrite with _ | _
    · intro manifest hmanifest
      refine absurd ⟨rfl, ?_⟩ hrefused
      refine List.any_eq_true.2 ⟨manifestName, by simp [hlast.names_eq], ?_⟩
      simp [hmanifest, pathExists]
    · exact hapart rfl

/-! ## The manifest that is overwritten -/

/-- Once the old files but the last are set aside, they are gone, and the other entries as they
were. -/
theorem run_setsAside (done rest : List Str) (s : Publishing γ)
    (hpc : s.pc = .aside (done ++ rest)) :
    ∃ s', run (publishStep names) s (List.replicate done.length false) = some s' ∧
      s'.pc = .aside rest ∧ (∀ name ∈ done, pathExists (s'.out name) = false) ∧
      ∀ name ∉ done, s'.out name = s.out name := by
  induction done generalizing s with
  | nil => exact ⟨s, rfl, hpc, nofun, fun _ _ => rfl⟩
  | cons name done ih =>
    obtain ⟨t, hstep, htpc, hgone, hsame⟩ : ∃ t, publishStep names s false = some t ∧
        t.pc = .aside (done ++ rest) ∧ pathExists (t.out name) = false ∧
        ∀ a ≠ name, t.out a = s.out a := by
      unfold publishStep
      rw [hpc]
      by_cases hout : pathExists (s.out name) = true
      · exact ⟨_, by simp [hout]; rfl, rfl, by simp [pathExists], fun a ha => by simp [ha]⟩
      · exact ⟨{ s with pc := .aside (done ++ rest) }, by simp [hout], rfl, by simpa using hout,
          fun _ _ => rfl⟩
    obtain ⟨s', hrun, hs'pc, hs'gone, hs'same⟩ := ih t htpc
    refine ⟨s', by simpa [List.replicate_succ, run, hstep] using hrun, hs'pc, fun a ha => ?_,
      fun a ha => ?_⟩
    · by_cases hmem : a ∈ done
      · exact hs'gone a hmem
      · obtain rfl := (List.mem_cons.1 ha).resolve_right hmem
        rwa [hs'same a hmem]
    · rw [List.mem_cons, not_or] at ha
      rw [hs'same a ha.2, hsame a ha.1]

/-- A directory with an earlier export of one file, where a manifest is the names it lists. -/
def earlierExport (name : Str) : Option (List Str) :=
  if name = manifestName then some ["o".toList, manifestName]
  else if name = "o".toList then some []
  else none

/-- It is all there is in the output directory. -/
def earlierOut (name : Str) : Option (Entry (List Str)) := (earlierExport name).map .file

theorem describes_earlierOut : Describes id earlierOut := by
  intro manifest hmanifest name hname
  obtain rfl : ["o".toList, manifestName] = manifest := by
    simpa [earlierOut, earlierExport] using hmanifest
  rcases List.mem_cons.1 hname with rfl | hname
  · rfl
  · obtain rfl := List.mem_singleton.1 hname
    rfl

/-- Published again with `overwrite` : the old manifest describes a file that is set aside. -/
theorem overwritten_manifest : Describes id earlierOut ∧
    ∃ s, Reachable (publishStep ["o".toList, manifestName])
        (publishStart ["o".toList, manifestName] true earlierExport earlierOut) s ∧
      ¬Describes id s.out := by
  refine ⟨describes_earlierOut, _, ⟨[false], rfl⟩, fun h => ?_⟩
  exact absurd (h ["o".toList, manifestName] rfl "o".toList List.mem_cons_self) (by decide)

/-- A manifest in the directory describes files that are there, between any two file operations of
any run, just when the export does not overwrite a manifest that describes one of the other
files. -/
theorem describes_iff (hlast : ManifestLast lists names data stage) (hlaw : Describes lists out)
    (overwrite : Bool) :
    (∀ s, Reachable (publishStep names) (publishStart names overwrite stage out) s →
        Describes lists s.out) ↔
      ¬(overwrite = true ∧ ∃ manifest, out manifestName = some (.file manifest) ∧
        ∃ name ∈ lists manifest, name ∈ data) := by
  constructor
  · rintro hall ⟨rfl, manifest, hmanifest, name, hlisted, hdata⟩
    obtain ⟨s, hrun, -, hgone, hsame⟩ := @run_setsAside _ names data [manifestName]
      (publishStart names true stage out) (by rw [← hlast.names_eq]; rfl)
    have hthere := hall s ⟨_, hrun⟩ manifest
      (by rw [hsame _ hlast.notMem]; exact hmanifest) name hlisted
    simp [hgone name hdata] at hthere
  · intro hcond s hs
    refine describes_of_apart hlast hlaw (fun hover manifest hmanifest name hlisted hdata => ?_) hs
    exact hcond ⟨hover, manifest, hmanifest, name, hlisted, hdata⟩

/-- The earlier export again. -/
theorem describes_iff_earlierExport :
    ¬∀ s, Reachable (publishStep ["o".toList, manifestName])
        (publishStart ["o".toList, manifestName] true earlierExport earlierOut) s →
      Describes id s.out := by
  have hlast : ManifestLast id ["o".toList, manifestName] ["o".toList] earlierExport := by
    refine ⟨rfl, by decide, fun manifest hmanifest => ?_⟩
    obtain rfl : ["o".toList, manifestName] = manifest := by simpa [earlierExport] using hmanifest
    exact List.Subset.refl _
  intro hall
  exact (describes_iff hlast describes_earlierOut true).1 hall
    ⟨rfl, _, rfl, "o".toList, List.mem_cons_self, List.mem_cons_self⟩

end Mtrtk
