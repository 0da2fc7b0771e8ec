import Mtrtk.Epochs

/-!
# Every epoch once

The runs of a stream are published in stream order and none twice
(`StateStore.Ordered`), with NAV-EOE every one is (`Closed`), and so is every one of a stream
without, that opens with NAV-PVT and is ended (`Pending`). Where NAV-EOE stops coming, one run
is lost before the inference takes over : the first of these that ends without NAV-EOE.

`StateStore.epochs_once` is the whole. The inference goes by the iTOW, so it needs runs with
messages that count for an epoch, and after the last NAV-EOE no run with the iTOW of that
one, and no reset that cuts the count of the runs that miss theirs
(`StateStore.epochs_lost`).
-/

namespace Mtrtk

namespace StateStore

variable {s : StateStore} {r : NavRun}

/-! ## In stream order -/

/-- The published runs are in order and before the current one, the open run is before `n`,
and unless every published run is before it, it is not the next to be published. -/
structure Ordered (s : StateStore) (n : ℕ) : Prop where
  sorted : s.published.Pairwise (· < ·)
  below : ∀ p ∈ s.published, p < s.current
  open_lt : s.openItow ≠ none → s.openRun < n
  last : s.openItow ≠ none →
    (∀ p ∈ s.published, p < s.openRun) ∨ s.sawEoe = true ∧ s.missedEoe = 0

theorem Ordered.append_pending (h : s.Ordered s.current) (hne : s.openItow ≠ none)
    (hlast : ∀ p ∈ s.published, p < s.openRun) :
    (s.published ++ s.pending).Pairwise (· < ·) ∧
      ∀ p ∈ s.published ++ s.pending, p < s.current := by
  unfold pending
  split_ifs with hw
  · refine ⟨List.pairwise_append.2 ⟨h.sorted, List.pairwise_singleton .., ?_⟩, ?_⟩
    · simpa using hlast
    · simpa [or_imp, forall_and] using ⟨h.below, h.open_lt hne⟩
  · simpa using ⟨h.sorted, h.below⟩

theorem Ordered.opened (h : s.Ordered s.current) (mono : ℚ) :
    (s.opened r mono).Ordered (s.current + 1) ∧ (s.opened r mono).current = s.current := by
  unfold StateStore.opened
  split
  · exact ⟨⟨h.sorted, h.below, fun hne => (h.open_lt hne).trans (Nat.lt_succ_self _), h.last⟩, rfl⟩
  · next identity _ =>
    refine ⟨?_, inferEpochEnd_current ..⟩
    have hopen : ∀ {t : StateStore}, t.published.Pairwise (· < ·) ∧
        (∀ p ∈ t.published, p < s.current) → t.current = s.current → t.openRun = s.current →
        t.Ordered (s.current + 1) := fun ⟨hsorted, hbelow⟩ hc ho =>
      ⟨hsorted, hc ▸ hbelow, fun _ => ho ▸ Nat.lt_succ_self _, fun _ => .inl (ho ▸ hbelow)⟩
    refine hopen ?_ (inferEpochEnd_current ..) (inferEpochEnd_openRun ..)
    rcases opening_inferEpochEnd s r.itow identity mono with
      ⟨-, -, -, -, hp⟩ | ⟨-, -, -, -, hp⟩ | ⟨-, -, -, -, -, -, hp⟩ | ⟨-, -, -, -, -, -, -, hp⟩ |
      ⟨-, hne, -, hle, -, -, hp⟩ | ⟨hne, hs, -, -, hp⟩
    all_goals rw [hp]
    · exact ⟨h.sorted, h.below⟩
    · exact ⟨h.sorted, h.below⟩
    · exact ⟨h.sorted, h.below⟩
    · exact ⟨h.sorted, h.below⟩
    · refine h.append_pending hne ((h.last hne).resolve_right fun hm => ?_)
      simp [hm.2, eoeMissedLimit] at hle
    · refine h.append_pending hne ((h.last hne).resolve_right fun hm => ?_)
      simp [hs] at hm

/-- A NAV-EOE publishes the current run, and no epoch is open or none is missed. -/
theorem navEoe_spec (s : StateStore) (itow : ℕ) (mono : ℚ) :
    (s.navEoe itow mono).published = s.published ++ [s.current] ∧
      (s.navEoe itow mono).current = s.current ∧ (s.navEoe itow mono).sawEoe = true ∧
      (s.navEoe itow mono).missedEoe = 0 ∧ (s.navEoe itow mono).eoeItow = some itow ∧
      (s.navEoe itow mono).openRun = s.openRun ∧
      ((s.navEoe itow mono).openItow = none ∨ (s.navEoe itow mono).openItow = s.openItow) := by
  unfold navEoe
  split_ifs with hs
  · exact ⟨rfl, rfl, hs, rfl, rfl, rfl, .inr rfl⟩
  · exact ⟨rfl, rfl, rfl, rfl, rfl, rfl, .inl rfl⟩

theorem Ordered.applyRun (h : s.Ordered s.current) (r : NavRun) :
    (s.applyRun r).Ordered (s.applyRun r).current := by
  obtain ⟨mono, heq⟩ := applyRun_eq s r
  obtain ⟨hord, hcur⟩ := h.opened (r := r) mono
  rw [heq]
  unfold closed
  split
  · refine ⟨hord.sorted, fun p hp => ?_, hord.open_lt, hord.last⟩
    exact (hcur ▸ hord.below p hp).trans (Nat.lt_succ_self _)
  · next mono' _ =>
    obtain ⟨hp, -, hs, hm, -, ho, hopen⟩ := navEoe_spec (s.opened r mono) r.itow mono'
    refine ⟨?_, fun p hmem => ?_, fun hne => ?_, fun _ => .inr ⟨hs, hm⟩⟩
    · rw [hp]
      exact List.pairwise_append.2
        ⟨hord.sorted, List.pairwise_singleton .., by simpa using hord.below⟩
    · rw [hp, hcur] at hmem
      rcases List.mem_append.1 hmem with hmem | hmem
      · exact (hcur ▸ hord.below p hmem).trans (Nat.lt_succ_self _)
      · exact List.mem_singleton.1 hmem ▸ Nat.lt_succ_self _
    · exact ho ▸ hord.open_lt (hopen.resolve_left hne ▸ hne)

theorem Ordered.feed (h : s.Ordered s.current) (item : StreamItem) :
    (s.feed item).Ordered (s.feed item).current := by
  cases item with
  | run r => exact h.applyRun r
  | reset => exact ⟨h.sorted, h.below, (absurd rfl ·), (absurd rfl ·)⟩
  | endOfStream =>
    unfold StateStore.feed endOfStream
    split_ifs with hend
    · simp only [Bool.and_eq_true, Bool.not_eq_true', Option.isSome_iff_ne_none] at hend
      obtain ⟨⟨hs, hne⟩, hw⟩ := hend
      have hlast := (h.last hne).resolve_right fun hm => by simp [hs] at hm
      obtain ⟨hsorted, hbelow⟩ := h.append_pending hne hlast
      simp only [pending, hw, if_true] at hsorted hbelow
      exact ⟨hsorted, hbelow, (absurd rfl ·), (absurd rfl ·)⟩
    · exact ⟨h.sorted, h.below, (absurd rfl ·), (absurd rfl ·)⟩

theorem ordered_play (items : List StreamItem) : (play items).Ordered (play items).current := by
  refine List.foldlRecOn items feed (motive := fun s => s.Ordered s.current) ?_
    fun s h item _ => h.feed item
  exact ⟨List.Pairwise.nil, nofun, (absurd rfl ·), (absurd rfl ·)⟩

/-! ## With NAV-EOE -/

/-- Every run was published, and none is pending. -/
structure Closed (s : StateStore) : Prop where
  published : s.published = List.range s.current
  idle : s.openItow = none ∨ s.sawEoe = true ∧ s.missedEoe = 0

theorem Closed.applyRun (h : s.Closed) (heoe : r.eoe ≠ none) : (s.applyRun r).Closed := by
  obtain ⟨mono, heq⟩ := applyRun_eq s r
  obtain ⟨mono', hmono'⟩ := Option.ne_none_iff_exists'.1 heoe
  have hopened : (s.opened r mono).published = s.published ∧
      (s.opened r mono).current = s.current := by
    unfold opened
    split
    · exact ⟨rfl, rfl⟩
    · next identity _ =>
      refine ⟨?_, inferEpochEnd_current ..⟩
      rcases opening_inferEpochEnd s r.itow identity mono with
        ⟨-, -, -, -, hp⟩ | ⟨-, -, -, -, hp⟩ | ⟨-, -, -, -, -, -, hp⟩ | ⟨-, -, -, -, -, -, -, hp⟩ |
        ⟨-, hne, -, hle, -, -, -⟩ | ⟨hne, hs, -, -, -⟩
      · exact hp
      · exact hp
      · exact hp
      · exact hp
      · simp [(h.idle.resolve_left hne).2, eoeMissedLimit] at hle
      · simp [(h.idle.resolve_left hne).1] at hs
  obtain ⟨hp, -, hs, hm, -⟩ := navEoe_spec (s.opened r mono) r.itow mono'
  simp only [heq, closed, hmono']
  refine ⟨?_, .inr ⟨hs, hm⟩⟩
  rw [hp, hopened.1, hopened.2, h.published, List.range_succ]

theorem Closed.feed (h : s.Closed) {item : StreamItem}
    (hitem : ∀ r, item = .run r → r.eoe ≠ none) : (s.feed item).Closed := by
  cases item with
  | run r => exact h.applyRun (hitem r rfl)
  | reset => exact ⟨h.published, .inl rfl⟩
  | endOfStream =>
    unfold StateStore.feed endOfStream
    split_ifs with hend
    · simp only [Bool.and_eq_true, Bool.not_eq_true', Option.isSome_iff_ne_none] at hend
      simp [(h.idle.resolve_left hend.1.2).1] at hend
    · exact ⟨h.published, .inl rfl⟩

/-! ## Without -/

/-- The epoch `itow` of the run before the current one is published with the next message of
another iTOW. -/
structure Pending (s : StateStore) (itow : ℕ) : Prop where
  openItow : s.openItow = some itow
  whole : s.openWhole = true
  openRun : s.openRun + 1 = s.current
  next : s.sawEoe = false ∨
    s.sawEoe = true ∧ eoeMissedLimit ≤ s.missedEoe + 1 ∧ s.eoeItow ≠ some itow

theorem Pending.applyRun {itow : ℕ} (h : s.Pending itow) (heoe : r.eoe = none)
    (hr : r.opening ≠ none) (hne : r.itow ≠ itow) :
    (s.applyRun r).Pending r.itow ∧
      (s.applyRun r).published = s.published ++ [s.openRun] ∧
      (s.applyRun r).openRun = s.openRun + 1 ∧ (s.applyRun r).sawEoe = false := by
  obtain ⟨mono, heq⟩ := applyRun_eq s r
  obtain ⟨identity, hid⟩ := Option.ne_none_iff_exists'.1 hr
  have hopened : (s.inferEpochEnd r.itow identity mono).sawEoe = false ∧
      (s.inferEpochEnd r.itow identity mono).openWhole = true ∧
      (s.inferEpochEnd r.itow identity mono).published = s.published ++ s.pending := by
    rcases opening_inferEpochEnd s r.itow identity mono with
      ⟨ho, -⟩ | ⟨ho, -⟩ | ⟨ho, -, hs, -⟩ | ⟨-, -, hs, hlt, -⟩ | ⟨-, -, -, -, hs', hw, hp⟩ |
      ⟨-, -, hs', hw, hp⟩
    · exact absurd (Option.some.inj (ho.symm.trans h.openItow)) hne
    · exact absurd (h.openItow.symm.trans ho) (Option.some_ne_none _)
    · rcases h.next with hs' | ⟨-, -, hne'⟩
      · exact absurd (hs'.symm.trans hs) Bool.false_ne_true
      · exact absurd (ho.symm.trans h.openItow) hne'
    · rcases h.next with hs' | ⟨-, hle, -⟩
      · exact absurd (hs'.symm.trans hs) Bool.false_ne_true
      · omega
    · exact ⟨hs', hw, hp⟩
    · exact ⟨hs', hw, hp⟩
  obtain ⟨hs, hw, hp⟩ := hopened
  have hrun := inferEpochEnd_openRun s r.itow identity mono
  simp only [heq, closed, heoe, opened, hid]
  refine ⟨⟨inferEpochEnd_openItow .., hw, congrArg (· + 1) hrun, .inl hs⟩, ?_, ?_, hs⟩
  · rw [hp, pending, if_pos h.whole]
  · exact hrun.trans h.openRun.symm

/-- Runs without NAV-EOE, whose messages count for their epochs. -/
def Unclosed (runs : List NavRun) : Prop := ∀ r ∈ runs, r.eoe = none ∧ r.opening ≠ none

instance (runs : List NavRun) : Decidable (Unclosed runs) :=
  inferInstanceAs (Decidable (∀ r ∈ runs, r.eoe = none ∧ r.opening ≠ none))

theorem Pending.applyRuns :
    ∀ {s : StateStore} {itow : ℕ} {runs : List NavRun}, s.Pending itow → Unclosed runs →
      List.IsChain (· ≠ ·) (itow :: runs.map NavRun.itow) →
      (∃ itow', (runs.foldl StateStore.applyRun s).Pending itow') ∧
      (runs.foldl StateStore.applyRun s).published =
        s.published ++ List.range' s.openRun runs.length ∧
      (runs.foldl StateStore.applyRun s).openRun = s.openRun + runs.length ∧
      (s.sawEoe = false → (runs.foldl StateStore.applyRun s).sawEoe = false)
  | _, itow, [], h, _, _ => ⟨⟨itow, h⟩, by simp, rfl, id⟩
  | s, itow, r :: runs, h, hall, hchain => by
    obtain ⟨⟨heoe, hr⟩, hall⟩ := List.forall_mem_cons.1 hall
    obtain ⟨hne, hchain⟩ := List.isChain_cons_cons.1 hchain
    obtain ⟨hpend, hpub, hrun, hs⟩ := h.applyRun heoe hr hne.symm
    obtain ⟨hpend', hpub', hrun', hs'⟩ := hpend.applyRuns hall hchain
    refine ⟨hpend', ?_, ?_, fun _ => hs' hs⟩
    · rw [List.foldl_cons, hpub', hpub, hrun, List.append_assoc]
      rfl
    · rw [List.foldl_cons, hrun', hrun, List.length_cons]
      omega

theorem range_append_range' (n k : ℕ) : List.range n ++ List.range' n k = List.range (n + k) := by
  rw [List.range_eq_range', List.range_eq_range', ← List.range'_append_1, Nat.zero_add]

/-- A stream without NAV-EOE between two ends of stream, opened by NAV-PVT. -/
structure Session (runs : List NavRun) : Prop where
  unclosed : Unclosed runs
  chain : List.IsChain (· ≠ ·) (runs.map NavRun.itow)
  pvt : ∀ r ∈ runs.head?, r.opening = some "NAV-PVT"

def sessionItems (runs : List NavRun) : List StreamItem := runs.map .run ++ [.endOfStream]

/-- Every run was published, and no NAV-EOE was seen. -/
structure Idle (s : StateStore) : Prop where
  published : s.published = List.range s.current
  openItow : s.openItow = none
  sawEoe : s.sawEoe = false

theorem Idle.applyRun (h : s.Idle) (heoe : r.eoe = none) (hpvt : r.opening = some "NAV-PVT") :
    (s.applyRun r).Pending r.itow ∧ (s.applyRun r).published = s.published ∧
      (s.applyRun r).openRun = s.current ∧ (s.applyRun r).sawEoe = false := by
  obtain ⟨mono, heq⟩ := applyRun_eq s r
  have hrun := inferEpochEnd_openRun s r.itow "NAV-PVT" mono
  simp only [heq, closed, heoe, opened, hpvt]
  rcases opening_inferEpochEnd s r.itow "NAV-PVT" mono with
    ⟨ho, -⟩ | ⟨-, hs, -, hw, hp⟩ | ⟨-, hne, -⟩ | ⟨-, hne, -⟩ | ⟨-, hne, -⟩ | ⟨hne, -⟩
  · exact absurd (ho.symm.trans h.openItow) (Option.some_ne_none _)
  · have hs' := hs.trans h.sawEoe
    exact ⟨⟨inferEpochEnd_openItow .., hw, congrArg (· + 1) hrun, .inl hs'⟩, hp, hrun, hs'⟩
  · exact absurd h.openItow hne
  · exact absurd h.openItow hne
  · exact absurd h.openItow hne
  · exact absurd h.openItow hne

/-- The end of the stream publishes the open run. -/
theorem Pending.endOfStream {itow : ℕ} (h : s.Pending itow) (hs : s.sawEoe = false) :
    s.endOfStream.published = s.published ++ [s.openRun] ∧ s.endOfStream.openItow = none ∧
      s.endOfStream.current = s.current ∧ s.endOfStream.sawEoe = false := by
  unfold StateStore.endOfStream
  rw [if_pos (by simp [hs, h.openItow, h.whole])]
  exact ⟨rfl, rfl, rfl, hs⟩

theorem Idle.endOfStream (h : s.Idle) :
    s.endOfStream.Idle ∧ s.endOfStream.current = s.current := by
  unfold StateStore.endOfStream
  rw [if_neg (by simp [h.openItow])]
  exact ⟨⟨h.published, rfl, h.sawEoe⟩, rfl⟩

theorem Idle.session (h : s.Idle) {runs : List NavRun} (hs : Session runs) :
    ((sessionItems runs).foldl feed s).Idle ∧
      ((sessionItems runs).foldl feed s).current = s.current + runs.length := by
  rw [sessionItems, List.foldl_append, List.foldl_map]
  cases runs with
  | nil => exact h.endOfStream
  | cons r runs =>
    obtain ⟨⟨heoe, -⟩, hall⟩ := List.forall_mem_cons.1 hs.unclosed
    obtain ⟨hpend, hpub, hrun, hsaw⟩ := h.applyRun heoe (hs.pvt r rfl)
    obtain ⟨⟨itow, hpend'⟩, hpub', hrun', hsaw'⟩ := hpend.applyRuns hall hs.chain
    obtain ⟨hpub'', hopen, hcur, hsaw''⟩ := hpend'.endOfStream (hsaw' hsaw)
    have hlen : (runs.foldl StateStore.applyRun (s.applyRun r)).current =
        s.current + (runs.length + 1) := by
      rw [← hpend'.openRun, hrun', hrun]
      rfl
    refine ⟨⟨?_, hopen, hsaw''⟩, hcur.trans hlen⟩
    refine (hpub''.trans ?_).trans (congrArg List.range (hcur.trans hlen)).symm
    rw [hpub', hpub, hrun', hrun, h.published, List.append_assoc, ← List.range'_1_concat,
      range_append_range']

theorem Idle.sessions {sessions : List (List NavRun)} (h : s.Idle)
    (hs : ∀ runs ∈ sessions, Session runs) :
    ((sessions.flatMap sessionItems).foldl feed s).Idle ∧
      ((sessions.flatMap sessionItems).foldl feed s).current =
        s.current + sessions.flatten.length := by
  induction sessions generalizing s with
  | nil => exact ⟨h, rfl⟩
  | cons runs sessions ih =>
    obtain ⟨hruns, hs⟩ := List.forall_mem_cons.1 hs
    obtain ⟨hidle, hcur⟩ := h.session hruns
    obtain ⟨hidle', hcur'⟩ := ih hidle hs
    rw [List.flatMap_cons, List.foldl_append]
    refine ⟨hidle', ?_⟩
    rw [hcur', hcur, List.flatten_cons, List.length_append, Nat.add_assoc]

/-! ## Where NAV-EOE stops coming -/

/-- After a NAV-EOE of the epoch `itow`. -/
structure JustClosed (s : StateStore) (itow : ℕ) : Prop where
  sawEoe : s.sawEoe = true
  missedEoe : s.missedEoe = 0
  eoeItow : s.eoeItow = some itow

theorem justClosed_applyRun (s : StateStore) (heoe : r.eoe ≠ none) :
    (s.applyRun r).JustClosed r.itow := by
  obtain ⟨mono, heq⟩ := applyRun_eq s r
  obtain ⟨mono', hmono'⟩ := Option.ne_none_iff_exists'.1 heoe
  obtain ⟨-, -, hs, hm, he, -⟩ := navEoe_spec (s.opened r mono) r.itow mono'
  simp only [heq, closed, hmono']
  exact ⟨hs, hm, he⟩

/-- The next run without NAV-EOE publishes none. It is pending, as after an epoch that missed
its NAV-EOE, or is the first. -/
theorem JustClosed.applyRun {itow : ℕ} (h : s.JustClosed itow) (heoe : r.eoe = none)
    (hr : r.opening ≠ none) (hne : r.itow ≠ itow) :
    (s.applyRun r).published = s.published ∧ (s.applyRun r).openRun = s.current ∧
      (s.applyRun r).openItow = some r.itow ∧
      ((s.applyRun r).Pending r.itow ∨ (s.applyRun r).JustClosed itow ∧
        ∀ o, s.openItow = some o → o = itow ∨ o = r.itow) := by
  obtain ⟨mono, heq⟩ := applyRun_eq s r
  obtain ⟨identity, hid⟩ := Option.ne_none_iff_exists'.1 hr
  have hrun := inferEpochEnd_openRun s r.itow identity mono
  have hitow := inferEpochEnd_openItow s r.itow identity mono
  have heitow := (inferEpochEnd_eoeItow s r.itow identity mono).trans h.eoeItow
  simp only [heq, closed, heoe, opened, hid]
  rcases opening_inferEpochEnd s r.itow identity mono with
    ⟨ho, hs, hm, -, hp⟩ | ⟨ho, hs, hm, -, hp⟩ | ⟨ho, -, -, hs, hm, -, hp⟩ |
    ⟨-, -, -, -, hs, hm, hw, hp⟩ | ⟨-, -, -, hle, -⟩ | ⟨-, hs, -⟩
  · refine ⟨hp, hrun, hitow, .inr ⟨⟨hs.trans h.sawEoe, hm.trans h.missedEoe, heitow⟩, ?_⟩⟩
    exact fun o ho' => .inr (Option.some.inj (ho'.symm.trans ho))
  · refine ⟨hp, hrun, hitow, .inr ⟨⟨hs.trans h.sawEoe, hm.trans h.missedEoe, heitow⟩, ?_⟩⟩
    exact fun o ho' => absurd (ho'.symm.trans ho) (Option.some_ne_none _)
  · refine ⟨hp, hrun, hitow, .inr ⟨⟨hs, hm, heitow⟩, fun o ho' => .inl ?_⟩⟩
    exact Option.some.inj (ho'.symm.trans (ho.trans h.eoeItow))
  · refine ⟨hp, hrun, hitow, .inl ⟨hitow, hw, congrArg (· + 1) hrun, .inr ⟨hs, ?_, ?_⟩⟩⟩
    · simp [hm, eoeMissedLimit]
    · simpa [h.eoeItow] using hne.symm
  · simp [h.missedEoe, eoeMissedLimit] at hle
  · exact absurd (hs.symm.trans h.sawEoe) Bool.false_ne_true

/-- The runs after it without NAV-EOE : `k` is the first that is published, and the last is
still open. -/
theorem JustClosed.applyRuns {itow : ℕ} (h : s.JustClosed itow) {runs : List NavRun}
    (hruns : runs ≠ []) (hall : Unclosed runs) (hne : ∀ r ∈ runs, r.itow ≠ itow)
    (hchain : List.IsChain (· ≠ ·) (runs.map NavRun.itow)) :
    ∃ k m, k ≤ s.current + (eoeMissedLimit - 1) ∧ k + m + 1 = s.current + runs.length ∧
      (runs.foldl StateStore.applyRun s).published = s.published ++ List.range' k m := by
  obtain ⟨r₁, runs, rfl⟩ := List.exists_cons_of_ne_nil hruns
  obtain ⟨⟨heoe, hr⟩, hall⟩ := List.forall_mem_cons.1 hall
  obtain ⟨hne₁, hne⟩ := List.forall_mem_cons.1 hne
  obtain ⟨hpub, hrun, hopen, hpend | ⟨hclosed, -⟩⟩ := h.applyRun heoe hr hne₁
  · obtain ⟨-, hpub', -⟩ := hpend.applyRuns hall hchain
    refine ⟨s.current, runs.length, Nat.le_add_right .., rfl, ?_⟩
    rw [List.foldl_cons, hpub', hpub, hrun]
  · cases runs with
    | nil => exact ⟨s.current, 0, Nat.le_add_right .., rfl, by simpa using hpub⟩
    | cons r₂ runs =>
      obtain ⟨⟨heoe₂, hr₂⟩, hall⟩ := List.forall_mem_cons.1 hall
      obtain ⟨hne₂, hchain⟩ := List.isChain_cons_cons.1 hchain
      obtain ⟨hne₃, -⟩ := List.forall_mem_cons.1 hne
      obtain ⟨hpub₂, hrun₂, -, hpend | ⟨-, hcases⟩⟩ := hclosed.applyRun heoe₂ hr₂ hne₃
      · obtain ⟨-, hpub', -⟩ := hpend.applyRuns hall hchain
        refine ⟨s.current + 1, runs.length, le_rfl, ?_, ?_⟩
        · simp only [List.length_cons]
          omega
        · rw [List.foldl_cons, List.foldl_cons, hpub', hpub₂, hpub, hrun₂]
          rfl
      · rcases hcases r₁.itow hopen with heq | heq
        · exact absurd heq hne₁
        · exact absurd heq hne₂

/-! ## The whole -/

theorem feed_current (s : StateStore) (item : StreamItem) :
    (s.feed item).current = s.current + if item.isRun then 1 else 0 := by
  cases item with
  | run r => rfl
  | reset => rfl
  | endOfStream =>
    change s.endOfStream.current = s.current
    unfold endOfStream
    split_ifs <;> rfl

/-- The runs are counted. -/
theorem foldl_feed_current (s : StateStore) (items : List StreamItem) :
    (items.foldl feed s).current = s.current + items.countP StreamItem.isRun := by
  induction items generalizing s with
  | nil => rfl
  | cons item items ih =>
    rw [List.foldl_cons, ih, feed_current, List.countP_cons]
    omega

theorem play_current (items : List StreamItem) :
    (play items).current = items.countP StreamItem.isRun :=
  (foldl_feed_current {} items).trans (Nat.zero_add _)

/-- The runs of any stream are published in order and none twice. All are where every run has
its NAV-EOE, and where none has, every run has a message that counts for its epoch, and the
stream is opened by NAV-PVT and ended. Where the NAV-EOE after run `r` stop coming, at most
the first run after `r` is lost, if none of these has the iTOW of `r` and no reset comes
between : the `m` runs from `k` on are published, and the last is open. -/
theorem epochs_once :
    (∀ items, (play items).published.Pairwise (· < ·)) ∧
      (∀ items, (∀ r, .run r ∈ items → r.eoe ≠ none) →
        (play items).published = List.range (items.countP StreamItem.isRun)) ∧
      (∀ sessions : List (List NavRun), (∀ runs ∈ sessions, Session runs) →
        (play (sessions.flatMap sessionItems)).published =
          List.range sessions.flatten.length) ∧
      ∀ items (r : NavRun) runs, r.eoe ≠ none → runs ≠ [] → Unclosed runs →
        (∀ r' ∈ runs, r'.itow ≠ r.itow) → List.IsChain (· ≠ ·) (runs.map NavRun.itow) →
        ∃ k m, k ≤ items.countP StreamItem.isRun + 1 + (eoeMissedLimit - 1) ∧
          k + m + 1 = items.countP StreamItem.isRun + 1 + runs.length ∧
          (play (items ++ .run r :: runs.map .run)).published =
            (play (items ++ [.run r])).published ++ List.range' k m := by
  refine ⟨fun items => (ordered_play items).sorted, fun items hitems => ?_,
    fun sessions hs => ?_, fun items r runs heoe hruns hall hne hchain => ?_⟩
  · have hclosed : (play items).Closed := by
      refine List.foldlRecOn items feed (motive := Closed) ⟨rfl, .inl rfl⟩
        fun s h item hmem => h.feed fun r hr => hitems r (hr ▸ hmem)
    rw [hclosed.published, play_current]
  · obtain ⟨hidle, hcur⟩ := Idle.sessions (s := {}) ⟨rfl, rfl, rfl⟩ hs
    exact hidle.published.trans (congrArg List.range (hcur.trans (Nat.zero_add _)))
  · obtain ⟨k, m, hk, hkm, hpub⟩ :=
      (justClosed_applyRun (play items) heoe).applyRuns hruns hall hne hchain
    have hcur : ((play items).applyRun r).current = items.countP StreamItem.isRun + 1 :=
      congrArg (· + 1) (play_current items)
    refine ⟨k, m, hcur ▸ hk, hcur ▸ hkm, ?_⟩
    rw [play, play, List.foldl_append, List.foldl_append, List.foldl_cons, List.foldl_map]
    exact hpub

/-- A run of one message. -/
def oneMessage (itow : ℕ) (eoe : Bool := false) (identity : String := "NAV-PVT")
    (h : identity ≠ "NAV-EOE" := by decide) : NavRun where
  itow := itow
  messages := [(identity, itow)]
  eoe := if eoe then some itow else none
  noEoe := by simpa using h

theorem epochs_once_five :
    (play [.run (oneMessage 1 true), .reset, .run (oneMessage 2 true)]).published = List.range 2 ∧
      (play ([[oneMessage 1, oneMessage 2], [oneMessage 3]].flatMap sessionItems)).published =
        List.range 3 ∧
      ∃ k m, k ≤ 2 ∧ k + m + 1 = 5 ∧
        (play (.run (oneMessage 1 true) :: [oneMessage 2, oneMessage 3, oneMessage 4,
          oneMessage 5].map .run)).published =
          (play [.run (oneMessage 1 true)]).published ++ List.range' k m := by
  refine ⟨epochs_once.2.1 _ ?_, epochs_once.2.2.1 _ ?_, ?_⟩
  · simp [oneMessage]
  · exact List.forall_mem_cons.2 ⟨⟨by decide, by decide, by decide⟩,
      List.forall_mem_singleton.2 ⟨by decide, by decide, by decide⟩⟩
  · exact epochs_once.2.2.2 [] (oneMessage 1 true)
      [oneMessage 2, oneMessage 3, oneMessage 4, oneMessage 5] (by decide) nofun
      (by decide) (by decide) (by decide)

/-- Runs that are lost : after the last NAV-EOE its iTOW comes again and again, or resets cut
the count of the missed ones. A run has no message that counts for an epoch. A stream goes
on after its end in the middle of an epoch. -/
theorem epochs_lost :
    (play ((oneMessage 1 true :: [2, 1, 2, 1, 2, 1].map (oneMessage ·)).map .run)).published =
        [0] ∧
      (play [.run (oneMessage 1 true), .run (oneMessage 2), .reset, .run (oneMessage 3), .reset,
        .run (oneMessage 4), .reset, .run (oneMessage 5)]).published = [0] ∧
      (play [.run (oneMessage 1), .run (oneMessage 2 false "NAV-ODO"), .run (oneMessage 3),
        .endOfStream]).published = [0, 2] ∧
      (play [.run (oneMessage 1), .endOfStream, .run (oneMessage 2 false "NAV-DOP"),
        .endOfStream]).published = [0] := by
  decide

end StateStore

end Mtrtk
