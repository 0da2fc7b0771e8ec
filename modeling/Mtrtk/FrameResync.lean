import Mathlib.Algebra.Order.Ring.Nat
import Mathlib.Data.List.Nodup
import Mtrtk.FrameForm

/-!
# Conservation and resynchronisation

A stream fed in any pieces is split into frames, garbage and the leftover (`Splits`) :
every emitted frame is valid and lies in the stream at its own place (`placedFrom`), and
what is neither emitted nor left over is counted in `garbage_bytes`.

No frame is lost to a false start. A decision at the place of a well-formed frame is to
emit it (`Frame.Valid.decided`), so the framer passes over the place only inside another
frame, and it does not stay before it for ever because what it waits on is shorter than
8200 bytes (`coreHead_none_length`). `Framer.feedAll_resync` puts this together. Its last
part is about frames one after the other behind garbage : they are returned when no valid
frame begins in the garbage. It is not enough that none lies within it
(`Framer.feedAll_swallowed`) : a header in the garbage can claim the first bytes of the
first frame for its checksum.

Where the stream ends with the frames nothing has to follow them, and bytes without a sync
byte before them are harmless (`Framer.feedAll_frames`).
-/

namespace Mtrtk

/-- A valid frame that is well-formed for the resynchronisation : a sentence is no longer
than `NMEA_MAX_LEN`. -/
def Frame.WellFormed (f : Frame) : Prop := f.Valid ∧ (f.proto = .nmea → f.raw.length ≤ nmeaMaxLen)

/-! ## Places -/

/-- The frames among the events with their offsets, the first event being at `o`. -/
def placedFrom : ℕ → List (List UInt8 × FramerEvent) → List (ℕ × Frame)
  | _, [] => []
  | o, (c, .frame p) :: evs => (o, ⟨p, c⟩) :: placedFrom (o + c.length) evs
  | o, (c, .garbage) :: evs => placedFrom (o + c.length) evs
  | o, (c, .rejected _) :: evs => placedFrom (o + c.length) evs

/-- The offsets of frames that follow one another from `o` on. -/
def layout : ℕ → List Frame → List (ℕ × Frame)
  | _, [] => []
  | o, f :: fs => (o, f) :: layout (o + f.raw.length) fs

/-- The stream `s` split into the frames `placed` at their offsets, `garbage` bytes
between them, and the leftover `rest` at its end. -/
structure Splits (s : List UInt8) (placed : List (ℕ × Frame)) (garbage : ℕ) (rest : List UInt8) :
    Prop where
  occurs : ∀ x ∈ placed, ∃ pre post, s = pre ++ x.2.raw ++ post ∧ pre.length = x.1 ∧ rest <:+ post
  disjoint : placed.Pairwise fun x y => x.1 + x.2.raw.length ≤ y.1
  conserved : (placed.map fun x => x.2.raw.length).sum + garbage + rest.length = s.length
  suffix : rest <:+ s
  valid : ∀ x ∈ placed, x.2.Valid

theorem map_snd_placedFrom : ∀ (evs : List (List UInt8 × FramerEvent)) (o : ℕ),
    (placedFrom o evs).map Prod.snd = framesOf evs
  | [], _ => rfl
  | (c, .frame p) :: evs, o => by
    rw [placedFrom, List.map_cons, map_snd_placedFrom evs]
    rfl
  | (c, .garbage) :: evs, o => map_snd_placedFrom evs _
  | (c, .rejected _) :: evs, o => map_snd_placedFrom evs _

theorem placedFrom_append : ∀ (E E' : List (List UInt8 × FramerEvent)) (o : ℕ),
    placedFrom o (E ++ E') = placedFrom o E ++ placedFrom (o + (consumed E).length) E'
  | [], E', o => by simp [placedFrom]
  | (c, .frame p) :: E, E', o => by
    simp [placedFrom, placedFrom_append E E', Nat.add_assoc]
  | (c, .garbage) :: E, E', o => by
    simp [placedFrom, placedFrom_append E E', Nat.add_assoc]
  | (c, .rejected _) :: E, E', o => by
    simp [placedFrom, placedFrom_append E E', Nat.add_assoc]

theorem le_of_mem_placedFrom : ∀ (evs : List (List UInt8 × FramerEvent)) (o : ℕ),
    ∀ x ∈ placedFrom o evs, o ≤ x.1
  | [], _, x, hx => by simp [placedFrom] at hx
  | (c, .frame p) :: evs, o, x, hx => by
    rcases List.mem_cons.1 hx with rfl | hx
    · exact le_rfl
    · exact (Nat.le_add_right _ _).trans (le_of_mem_placedFrom evs _ x hx)
  | (c, .garbage) :: evs, o, x, hx =>
    (Nat.le_add_right _ _).trans (le_of_mem_placedFrom evs _ x hx)
  | (c, .rejected _) :: evs, o, x, hx =>
    (Nat.le_add_right _ _).trans (le_of_mem_placedFrom evs _ x hx)

theorem mem_placedFrom : ∀ (evs : List (List UInt8 × FramerEvent)) (o : ℕ),
    ∀ x ∈ placedFrom o evs, ∃ E₁ E₂, evs = E₁ ++ (x.2.raw, .frame x.2.proto) :: E₂ ∧
      x.1 = o + (consumed E₁).length
  | [], _, x, hx => by simp [placedFrom] at hx
  | (c, .frame p) :: evs, o, x, hx => by
    rcases List.mem_cons.1 hx with rfl | hx
    · exact ⟨[], evs, rfl, rfl⟩
    · obtain ⟨E₁, E₂, rfl, ho⟩ := mem_placedFrom evs _ x hx
      exact ⟨(c, .frame p) :: E₁, E₂, rfl, by simp [ho, Nat.add_assoc]⟩
  | (c, .garbage) :: evs, o, x, hx => by
    obtain ⟨E₁, E₂, rfl, ho⟩ := mem_placedFrom evs _ x hx
    exact ⟨(c, .garbage) :: E₁, E₂, rfl, by simp [ho, Nat.add_assoc]⟩
  | (c, .rejected ck) :: evs, o, x, hx => by
    obtain ⟨E₁, E₂, rfl, ho⟩ := mem_placedFrom evs _ x hx
    exact ⟨(c, .rejected ck) :: E₁, E₂, rfl, by simp [ho, Nat.add_assoc]⟩

theorem placedFrom_disjoint : ∀ (evs : List (List UInt8 × FramerEvent)) (o : ℕ),
    (placedFrom o evs).Pairwise fun x y => x.1 + x.2.raw.length ≤ y.1
  | [], _ => .nil
  | (_, .frame _) :: evs, _ =>
    .cons (fun x hx => le_of_mem_placedFrom evs _ x hx) (placedFrom_disjoint evs _)
  | (_, .garbage) :: evs, _ => placedFrom_disjoint evs _
  | (_, .rejected _) :: evs, _ => placedFrom_disjoint evs _

/-- The bytes of the frames and the bytes counted as garbage are those consumed. -/
theorem garbage_tally : ∀ (evs : List (List UInt8 × FramerEvent)) (o : ℕ) (st : FramerStats),
    ((placedFrom o evs).map fun x => x.2.raw.length).sum + (st.tally evs).garbageBytes =
      (consumed evs).length + st.garbageBytes
  | [], _, _ => rfl
  | (c, .frame p) :: evs, o, st => by
    have h := garbage_tally evs (o + c.length) (st.count p)
    have hst : (st.count p).garbageBytes = st.garbageBytes := by cases p <;> rfl
    rw [hst] at h
    simp only [placedFrom, List.map_cons, List.sum_cons, consumed_cons, List.length_append]
    simp only [FramerStats.tally, List.foldl_cons, FramerStats.record] at h ⊢
    omega
  | (c, .garbage) :: evs, o, st => by
    have h := garbage_tally evs (o + c.length) (st.garbage c.length)
    simp only [placedFrom, consumed_cons, List.length_append]
    simp only [FramerStats.tally, List.foldl_cons, FramerStats.record, FramerStats.garbage] at h ⊢
    omega
  | (c, .rejected ck) :: evs, o, st => by
    have h := garbage_tally evs (o + c.length) ((st.checksum ck).garbage c.length)
    simp only [placedFrom, consumed_cons, List.length_append]
    simp only [FramerStats.tally, List.foldl_cons, FramerStats.record, FramerStats.garbage,
      FramerStats.checksum] at h ⊢
    omega

/-! ## What a trace of the scanner splits -/

variable {s : List UInt8} {r : List (List UInt8 × FramerEvent) × List UInt8}

/-- A frame event is a valid frame at its place. -/
theorem trace_valid (h : coreScanner.Trace s r) {E₁ E₂ : List (List UInt8 × FramerEvent)}
    {f : Frame} (hE : r.1 = E₁ ++ (f.raw, .frame f.proto) :: E₂) : f.Valid := by
  obtain ⟨b, v, -, hb, hc⟩ := h.decided E₁ _ _ E₂ hE
  have hv := coreHead_valid hb
  rwa [← hc] at hv

theorem trace_splits (h : coreScanner.Trace s r) :
    Splits s (placedFrom 0 r.1) ((({} : FramerStats).tally r.1).garbageBytes) r.2 where
  occurs x hx := by
    obtain ⟨E₁, E₂, hE, ho⟩ := mem_placedFrom r.1 0 x hx
    refine ⟨consumed E₁, consumed E₂ ++ r.2, ?_, by omega, List.suffix_append _ _⟩
    rw [← h.conserved, hE]
    simp
  disjoint := placedFrom_disjoint r.1 0
  conserved := by
    have hlen := congrArg List.length h.conserved
    rw [List.length_append] at hlen
    have := garbage_tally r.1 0 {}
    have : ({} : FramerStats).garbageBytes = 0 := rfl
    omega
  suffix := ⟨_, h.conserved⟩
  valid x hx := by
    obtain ⟨E₁, E₂, hE, -⟩ := mem_placedFrom r.1 0 x hx
    exact trace_valid h hE

/-- The event at the place of a well-formed frame is the frame. -/
theorem event_of_wellFormed (h : coreScanner.Trace s r) {pre post : List UInt8} {f : Frame}
    (hf : f.WellFormed) (hs : s = pre ++ f.raw ++ post)
    {E₁ E₂ : List (List UInt8 × FramerEvent)} {c : List UInt8} {e : FramerEvent}
    (hE : r.1 = E₁ ++ (c, e) :: E₂) (hpre : (consumed E₁).length = pre.length) :
    c = f.raw ∧ e = .frame f.proto := by
  obtain ⟨b, v, hbv, hb, hc⟩ := h.decided E₁ c e E₂ hE
  rw [hs, List.append_assoc] at hbv
  have hbv' : b ++ v = f.raw ++ post := (List.append_inj hbv hpre).2
  obtain ⟨hn, he⟩ := hf.1.decided hf.2 hbv' hb
  refine ⟨?_, he⟩
  have hle := coreScanner.le hb
  have htake := congrArg (List.take c.length) hbv'
  rwa [List.take_append_of_le_length hle, ← hc, hn, List.take_left] at htake

theorem lt_length_consumed (h : coreScanner.Trace s r) {pre post : List UInt8}
    (hs : s = pre ++ post) (hlong : ubxMaxPayload + 8 ≤ post.length) :
    pre.length < (consumed r.1).length := by
  have hwait := coreHead_none_length h.waits
  have hlen := congrArg List.length h.conserved
  rw [hs, List.length_append, List.length_append] at hlen
  omega

/-- A well-formed frame that no frame runs into is emitted at its place. -/
theorem mem_placed_of_wellFormed (h : coreScanner.Trace s r) {pre post : List UInt8} {f : Frame}
    (hf : f.WellFormed) (hs : s = pre ++ f.raw ++ post) (hlong : ubxMaxPayload + 8 ≤ post.length)
    (hclear : ∀ x ∈ placedFrom 0 r.1, x.1 < pre.length → x.1 + x.2.raw.length ≤ pre.length) :
    ∃ E₁ E₂, r.1 = E₁ ++ (f.raw, .frame f.proto) :: E₂ ∧ (consumed E₁).length = pre.length := by
  have hs' : s = pre ++ (f.raw ++ post) := by rw [hs, List.append_assoc]
  have hlt := lt_length_consumed h hs' (by rw [List.length_append]; omega)
  obtain ⟨E₁, c, e, E₂, hE, hle, hlt⟩ := Scanner.exists_event_at r.1 hlt
  have hat : (consumed E₁).length = pre.length := by
    obtain ⟨b, v, -, hb, -⟩ := h.decided E₁ c e E₂ hE
    obtain ⟨-, ⟨-, hn, -⟩ | ⟨ck, -, -, hn, -⟩ | ⟨p, -, -, rfl⟩⟩ := coreHead_cases hb
    · omega
    · omega
    · by_contra hne
      have hmem : ((consumed E₁).length, (⟨p, c⟩ : Frame)) ∈ placedFrom 0 r.1 := by
        rw [hE, placedFrom_append]
        simp [placedFrom]
      have := hclear _ hmem (by dsimp only; omega)
      dsimp only at this
      omega
  obtain ⟨rfl, rfl⟩ := event_of_wellFormed h hf hs hE hat
  exact ⟨E₁, E₂, hE, hat⟩

theorem placedFrom_frames : ∀ (fs : List Frame) (o : ℕ),
    placedFrom o (fs.map fun f => (f.raw, .frame f.proto)) = layout o fs
  | [], _ => rfl
  | _ :: fs, _ => congrArg (List.cons _) (placedFrom_frames fs _)

/-- From a place between two events on, well-formed frames that follow one another are
the next events. -/
theorem events_of_wellFormed (h : coreScanner.Trace s r) {post : List UInt8}
    (hlong : ubxMaxPayload + 8 ≤ post.length) :
    ∀ (fs : List Frame) (pre : List UInt8) (E₁ E₂ : List (List UInt8 × FramerEvent)),
      (∀ f ∈ fs, f.WellFormed) → s = pre ++ (fs.map Frame.raw).flatten ++ post →
      r.1 = E₁ ++ E₂ → (consumed E₁).length = pre.length →
        ∃ E₃, E₂ = (fs.map fun f => (f.raw, FramerEvent.frame f.proto)) ++ E₃
  | [], _, _, E₂, _, _, _, _ => ⟨E₂, rfl⟩
  | f :: fs, pre, E₁, E₂, hfs, hs, hE, hpre => by
    have hs' : s = pre ++ f.raw ++ ((fs.map Frame.raw).flatten ++ post) := by simp [hs]
    have hlt := lt_length_consumed h (hs'.trans (List.append_assoc ..))
      (by simp only [List.length_append]; omega)
    cases E₂ with
    | nil =>
      rw [hE, List.append_nil] at hlt
      omega
    | cons x E₂ =>
      obtain ⟨c, e⟩ := x
      obtain ⟨rfl, rfl⟩ := event_of_wellFormed h (hfs f (by simp)) hs' hE hpre
      obtain ⟨E₃, rfl⟩ := events_of_wellFormed h hlong fs (pre ++ f.raw)
        (E₁ ++ [(f.raw, .frame f.proto)]) E₂ (fun g hg => hfs g (by simp [hg])) (by simp [hs])
        (by simp [hE]) (by simp [hpre])
      exact ⟨E₃, rfl⟩

/-- Well-formed frames behind garbage in which no valid frame begins are the first ones
emitted. -/
theorem layout_prefix (h : coreScanner.Trace s r) {g post : List UInt8} {fs : List Frame}
    (hfs : ∀ f ∈ fs, f.WellFormed) (hs : s = g ++ (fs.map Frame.raw).flatten ++ post)
    (hlong : ubxMaxPayload + 8 ≤ post.length)
    (hg : ∀ (pre : List UInt8) (f : Frame) (post' : List UInt8), s = pre ++ f.raw ++ post' →
      f.Valid → g.length ≤ pre.length) :
    layout g.length fs <+: placedFrom 0 r.1 := by
  rcases fs with _ | ⟨f, fs⟩
  · exact List.nil_prefix
  have hbegins : ∀ x ∈ placedFrom 0 r.1, g.length ≤ x.1 := by
    intro x hx
    obtain ⟨pre, post', hpre, ho, -⟩ := (trace_splits h).occurs x hx
    exact ho ▸ hg pre x.2 post' hpre ((trace_splits h).valid x hx)
  have hs' : s = g ++ f.raw ++ ((fs.map Frame.raw).flatten ++ post) := by simp [hs]
  obtain ⟨E₁, E₂, hE, hat⟩ := mem_placed_of_wellFormed h (hfs f (by simp)) hs'
    (by rw [List.length_append]; omega) fun x hx hlt => absurd (hbegins x hx) (by omega)
  have hnone : placedFrom 0 E₁ = [] := by
    refine List.eq_nil_iff_forall_not_mem.2 fun x hx => ?_
    obtain ⟨F₁, F₂, rfl, ho⟩ := mem_placedFrom E₁ 0 x hx
    have hle := hbegins x (by rw [hE, placedFrom_append]; exact List.mem_append_left _ hx)
    have hpos := (trace_valid h (hE.trans (List.append_assoc ..))).pos
    simp only [consumed_append, consumed_cons, List.length_append] at hat
    omega
  obtain ⟨E₃, hE₃⟩ := events_of_wellFormed h hlong (f :: fs) g E₁ _ hfs hs hE hat
  rw [hE, placedFrom_append, hnone, hE₃, placedFrom_append, placedFrom_frames, hat, Nat.zero_add]
  exact List.prefix_append _ _

/-! ## Frames and nothing else -/

/-- The next event, where the rest `t` of the stream is decided by its first bytes alone. -/
theorem next_event (h : coreScanner.Trace s r) {pre t : List UInt8} {n : ℕ} {e : FramerEvent}
    (hs : s = pre ++ t) (ht : coreHead t ≠ none)
    (hfirst : ∀ b v, b ++ v = t → ∀ n' e', coreHead b = some (n', e') → n' = n ∧ e' = e)
    {E₁ E₂ : List (List UInt8 × FramerEvent)} (hE : r.1 = E₁ ++ E₂)
    (hpre : (consumed E₁).length = pre.length) :
    ∃ E₃, E₂ = (t.take n, e) :: E₃ := by
  cases E₂ with
  | nil =>
    have hall := h.conserved
    rw [hs, hE, List.append_nil] at hall
    exact absurd ((List.append_inj hall hpre).2 ▸ h.waits) ht
  | cons x E₂ =>
    obtain ⟨c, e'⟩ := x
    obtain ⟨b, v, hbv, hb, hc⟩ := h.decided E₁ c e' E₂ hE
    have htail := (List.append_inj (hbv.trans hs) hpre).2
    obtain ⟨hn, rfl⟩ := hfirst b v htail _ _ hb
    have hle := coreScanner.le hb
    refine ⟨E₂, ?_⟩
    rw [← htail, ← hn, List.take_append_of_le_length hle, ← hc]

theorem next_garbage (h : coreScanner.Trace s r) {pre t : List UInt8} {x : UInt8}
    (hx : isSync x = false) (hs : s = pre ++ x :: t) {E₁ E₂ : List (List UInt8 × FramerEvent)}
    (hE : r.1 = E₁ ++ E₂) (hpre : (consumed E₁).length = pre.length) :
    ∃ E₃, E₂ = ([x], .garbage) :: E₃ := by
  refine next_event h hs (n := 1) (by simp [coreHead, hx]) ?_ hE hpre
  intro b v hbv n' e' hb
  rcases b with _ | ⟨y, b⟩
  · simp [coreHead] at hb
  · obtain rfl : y = x := (List.cons.inj hbv).1
    simpa [coreHead, hx, eq_comm] using hb

theorem next_frame (h : coreScanner.Trace s r) {pre t : List UInt8} {f : Frame}
    (hf : f.WellFormed) (hs : s = pre ++ (f.raw ++ t)) {E₁ E₂ : List (List UInt8 × FramerEvent)}
    (hE : r.1 = E₁ ++ E₂) (hpre : (consumed E₁).length = pre.length) :
    ∃ E₃, E₂ = (f.raw, .frame f.proto) :: E₃ := by
  have hhead : coreHead (f.raw ++ t) = some (f.raw.length, .frame f.proto) :=
    coreHead_append t hf.1.coreHead fun hst => by
      have hframe := hf.1.coreHead
      simp [hst.coreHead] at hframe
  obtain ⟨E₃, hE₃⟩ := next_event h hs (n := f.raw.length) (e := .frame f.proto)
    (by simp [hhead]) (fun b v hbv n' e' hb => hf.1.decided hf.2 hbv hb) hE hpre
  exact ⟨E₃, by rw [hE₃, List.take_left]⟩

/-- Garbage without a sync byte is passed over. -/
theorem events_of_no_sync (h : coreScanner.Trace s r) : ∀ (g pre t : List UInt8)
    (E₁ E₂ : List (List UInt8 × FramerEvent)), (∀ x ∈ g, isSync x = false) →
      s = pre ++ (g ++ t) → r.1 = E₁ ++ E₂ → (consumed E₁).length = pre.length →
        ∃ E₃, E₂ = (g.map fun x => ([x], FramerEvent.garbage)) ++ E₃
  | [], _, _, _, E₂, _, _, _, _ => ⟨E₂, rfl⟩
  | x :: g, pre, t, E₁, E₂, hg, hs, hE, hpre => by
    obtain ⟨E₃, rfl⟩ := next_garbage h (hg x (by simp)) hs hE hpre
    obtain ⟨E₄, rfl⟩ := events_of_no_sync h g (pre ++ [x]) t (E₁ ++ [([x], .garbage)]) E₃
      (fun y hy => hg y (by simp [hy])) (by simp [hs]) (by simp [hE]) (by simp [hpre])
    exact ⟨E₄, rfl⟩

/-- Well-formed frames that end the stream are the last events. -/
theorem events_of_frames (h : coreScanner.Trace s r) : ∀ (fs : List Frame) (pre : List UInt8)
    (E₁ E₂ : List (List UInt8 × FramerEvent)), (∀ f ∈ fs, f.WellFormed) →
      s = pre ++ (fs.map Frame.raw).flatten → r.1 = E₁ ++ E₂ → (consumed E₁).length = pre.length →
        E₂ = fs.map fun f => (f.raw, FramerEvent.frame f.proto)
  | [], pre, E₁, E₂, _, hs, hE, hpre => by
    rcases E₂ with _ | ⟨⟨c, e⟩, E₂⟩
    · rfl
    · obtain ⟨b, v, hbv, hb, -⟩ := h.decided E₁ c e E₂ hE
      have hb0 : b = [] := by
        have htail := (List.append_inj (hbv.trans hs) hpre).2
        simp only [List.map_nil, List.flatten_nil, List.append_eq_nil_iff] at htail
        exact htail.1
      subst hb0
      simp [coreScanner, coreHead] at hb
  | f :: fs, pre, E₁, E₂, hfs, hs, hE, hpre => by
    obtain ⟨E₃, rfl⟩ := next_frame h (t := (fs.map Frame.raw).flatten) (hfs f (by simp))
      (by simp [hs]) hE hpre
    rw [events_of_frames h fs (pre ++ f.raw) (E₁ ++ [(f.raw, .frame f.proto)]) E₃
      (fun g hg => hfs g (by simp [hg])) (by simp [hs]) (by simp [hE]) (by simp [hpre])]
    rfl

theorem framesOf_garbage (g : List UInt8) :
    framesOf (g.map fun x => ([x], FramerEvent.garbage)) = [] := by
  simp [framesOf]

theorem framesOf_frames (fs : List Frame) :
    framesOf (fs.map fun f => (f.raw, FramerEvent.frame f.proto)) = fs := by
  simp [framesOf, List.filterMap_map]

theorem fits_of_length_le {M : ℕ} : ∀ (ps : List (List UInt8))
    (r : List (List UInt8 × FramerEvent) × List UInt8), coreHead r.2 = none →
      (∀ p ∈ ps, ubxMaxPayload + 8 + p.length ≤ M) → coreScanner.Fits M r ps
  | [], _, _, _ => trivial
  | p :: ps, r, hr, h => by
    have hwait := coreHead_none_length hr
    have hp := h p (by simp)
    refine ⟨by omega, fits_of_length_le ps _ (coreScanner.head_scan_rest _) fun q hq => ?_⟩
    exact h q (by simp [hq])

/-- Short pieces never overflow : what is held is shorter than the longest UBX frame. -/
theorem Framer.fresh_noOverflow {M : ℕ} {ps : List (List UInt8)}
    (h : ∀ p ∈ ps, ubxMaxPayload + 8 + p.length ≤ M) : (fresh M).NoOverflow ps :=
  fresh_noOverflow_iff.2 (fits_of_length_le ps _ coreScanner.head_nil h)

/-- Well-formed frames behind bytes without a sync byte, and nothing after them : they are
what a fresh framer returns, however the stream is cut. -/
theorem Framer.feedAll_frames {M : ℕ} {ps : List (List UInt8)} {g : List UInt8} (fs : List Frame)
    (h : (fresh M).NoOverflow ps) (hg : ∀ x ∈ g, isSync x = false) (hfs : ∀ f ∈ fs, f.WellFormed)
    (hs : ps.flatten = g ++ (fs.map Frame.raw).flatten) : ((fresh M).feedAll ps).1 = fs := by
  rw [fresh_feedAll h]
  have htr := coreScanner.trace_foldl ps
  set r := ps.foldl coreScanner.resume ([], [])
  obtain ⟨E, hE⟩ := events_of_no_sync htr g [] _ [] _ hg hs rfl rfl
  have hfr := events_of_frames htr fs g _ E hfs hs hE (by simp [consumed, Function.comp_def])
  subst hfr
  refine (congrArg framesOf hE).trans ?_
  rw [framesOf_append, framesOf_garbage, framesOf_frames, List.nil_append]

/-! ## The framer -/

/-- A fresh framer fed any pieces that never overflow : the stream is split into valid
frames, garbage and a short leftover ; a well-formed frame is emitted exactly once, at its
place, when no frame emitted elsewhere overlaps it and 8200 bytes follow it ; and frames
behind garbage are returned when no valid frame begins in the garbage. -/
theorem Framer.feedAll_resync {M : ℕ} {ps : List (List UInt8)} (h : (fresh M).NoOverflow ps) :
    ∃ placed : List (ℕ × Frame),
      placed.map Prod.snd = ((fresh M).feedAll ps).1 ∧
      Splits ps.flatten placed ((fresh M).feedAll ps).2.stats.garbageBytes
        ((fresh M).feedAll ps).2.buf ∧
      ((fresh M).feedAll ps).2.buf.length < ubxMaxPayload + 8 ∧
      (∀ (pre : List UInt8) (f : Frame) (post : List UInt8), ps.flatten = pre ++ f.raw ++ post →
        f.WellFormed → ubxMaxPayload + 8 ≤ post.length →
        (∀ x ∈ placed, x.1 ≠ pre.length →
          x.1 + x.2.raw.length ≤ pre.length ∨ pre.length + f.raw.length ≤ x.1) →
        placed.count (pre.length, f) = 1) ∧
      ∀ (g : List UInt8) (fs : List Frame) (post : List UInt8),
        ps.flatten = g ++ (fs.map Frame.raw).flatten ++ post → (∀ f ∈ fs, f.WellFormed) →
        ubxMaxPayload + 8 ≤ post.length →
        (∀ (pre : List UInt8) (f : Frame) (post' : List UInt8), ps.flatten = pre ++ f.raw ++ post' →
          f.Valid → g.length ≤ pre.length) →
        layout g.length fs <+: placed := by
  rw [fresh_feedAll h]
  have htr := coreScanner.trace_foldl ps
  set r := ps.foldl coreScanner.resume ([], [])
  refine ⟨placedFrom 0 r.1, map_snd_placedFrom r.1 0, trace_splits htr,
    coreHead_none_length htr.waits, ?_,
    fun g fs post hs hfs hlong => layout_prefix htr hfs hs hlong⟩
  intro pre f post hs hf hlong hclear
  obtain ⟨E₁, E₂, hE, hat⟩ := mem_placed_of_wellFormed htr hf hs hlong fun x hx hlt => by
    have := hf.1.pos
    rcases hclear x hx (by omega) with hx | hx <;> omega
  have hmem : (pre.length, f) ∈ placedFrom 0 r.1 := by
    rw [hE, placedFrom_append, hat]
    simp [placedFrom]
  refine Nat.le_antisymm (List.nodup_iff_count_le_one.1 ?_ _) (List.count_pos_iff.2 hmem)
  refine (placedFrom_disjoint r.1 0).imp_of_mem fun {x y} hx hy hxy => ?_
  rintro rfl
  have := ((trace_splits htr).valid x hx).pos
  omega

/-- Noise, and a UBX message whose checksum is wrong. -/
def falseStart : List UInt8 := [0x00, 0xFF, 0xB5, 0x62, 0x05, 0x01, 0x00, 0x00, 0x06, 0x16]

/-- A frame of each protocol. -/
def oneOfEachProto : List Frame :=
  [⟨.ubx, [0xB5, 0x62, 0x05, 0x01, 0x00, 0x00, 0x06, 0x17]⟩,
    ⟨.nmea, [0x24, 0x41, 0x2A, 0x34, 0x31, 0x0D, 0x0A]⟩,
    ⟨.rtcm3, [0xD3, 0x00, 0x00, 0x47, 0xEA, 0x4B]⟩]

theorem wellFormed_oneOfEachProto : ∀ f ∈ oneOfEachProto, f.WellFormed := by
  refine List.forall_mem_cons.2 ⟨⟨⟨0x05, 0x01, 0x00, 0x00, [], rfl, by decide, by decide⟩, by simp⟩,
    List.forall_mem_cons.2 ⟨⟨⟨[0x41], 0x34, 0x31, by decide, rfl, by decide, by decide⟩,
      fun _ => by decide⟩, List.forall_mem_singleton.2 ⟨?_, by simp⟩⟩⟩
  exact ⟨0x00, 0x00, [], 0x47, 0xEA, 0x4B, by decide, rfl, by decide, rfl⟩

/-- No valid frame begins in the false start. -/
theorem length_falseStart_le {t pre post : List UInt8} {f : Frame}
    (hs : falseStart ++ t = pre ++ f.raw ++ post) (hf : f.Valid) :
    falseStart.length ≤ pre.length := by
  by_contra hlt
  have hlt : pre.length < falseStart.length := not_le.1 hlt
  have hdrop : falseStart.drop pre.length ++ t = f.raw ++ post := by
    rw [← List.drop_append_of_le_length hlt.le, hs, List.append_assoc, List.drop_left]
  have hbegin : byteAt f.raw 0 = falseStart[pre.length] := by
    have hget := congrArg (fun l => l[0]?) hdrop
    have hfirst : 0 < (falseStart.drop pre.length).length := by
      rw [List.length_drop]
      omega
    rw [List.getElem?_append_left hfirst, List.getElem?_append_left hf.pos, List.getElem?_drop,
      Nat.add_zero, List.getElem?_eq_getElem hlt] at hget
    rw [byteAt, List.getD_eq_getElem?_getD, ← hget, Option.getD_some]
  -- the frame would begin at the only sync byte
  have honly : ∀ i (hi : i < falseStart.length), isSync falseStart[i] = true → i = 2 := by decide
  have hat : pre.length = 2 := by
    refine honly _ hlt ?_
    rw [← hbegin]
    exact hf.isSync_head
  have hdollar : ∀ i (hi : i < falseStart.length), falseStart[i] ≠ nmeaStart := by decide
  have hubx : f.proto = .nmea → f.raw.length ≤ nmeaMaxLen := fun hnmea =>
    absurd (hbegin.symm.trans (hf.nmea_head hnmea)) (hdollar _ hlt)
  rw [hat] at hdrop
  have hrejected : Mtrtk.coreHead (falseStart.drop 2) = some (1, .rejected true) := by decide
  exact absurd (hf.decided hubx hdrop hrejected).2 (by simp)

/-- Behind the false start every frame is at its place, the stream being cut in the first one. -/
theorem Framer.feedAll_resync_noisy : ∃ placed : List (ℕ × Frame),
    placed.map Prod.snd = ((fresh (1 <<< 20)).feedAll
      [falseStart ++ [0xB5, 0x62, 0x05], [0x01, 0x00, 0x00, 0x06, 0x17] ++
        (oneOfEachProto.tail.map Frame.raw).flatten ++ List.replicate (ubxMaxPayload + 8) 0]).1 ∧
      layout 10 oneOfEachProto <+: placed := by
  set tail := List.replicate (ubxMaxPayload + 8) (0 : UInt8)
  set ps := [falseStart ++ [0xB5, 0x62, 0x05], [0x01, 0x00, 0x00, 0x06, 0x17] ++
    (oneOfEachProto.tail.map Frame.raw).flatten ++ tail] with hps
  have hlength : tail.length = ubxMaxPayload + 8 := List.length_replicate
  clear_value tail
  have hflat : ps.flatten = falseStart ++ (oneOfEachProto.map Frame.raw).flatten ++ tail := by
    simp [hps, oneOfEachProto]
  have hfits : (fresh (1 <<< 20)).NoOverflow ps := by
    refine fresh_noOverflow fun p hp => ?_
    have hle : p.length ≤ ps.flatten.length := (List.sublist_flatten_of_mem hp).length_le
    rw [hflat, List.length_append, hlength] at hle
    exact (Nat.add_le_add_left hle _).trans (by decide)
  obtain ⟨placed, hmap, -, -, -, hlayout⟩ := feedAll_resync hfits
  refine ⟨placed, hmap, hlayout falseStart oneOfEachProto _ hflat wellFormed_oneOfEachProto
    hlength.ge fun pre f post hs hf => ?_⟩
  rw [hflat, List.append_assoc] at hs
  exact length_falseStart_le hs hf

/-! ## Garbage that claims the first bytes of a frame -/

/-- A UBX header and payload without the checksum, which would be the two sync bytes. -/
def claimingGarbage : List UInt8 := [0xB5, 0x62, 0x01, 0x01, 0x02, 0x00, 0x9E, 0x13]

/-- An ACK-ACK without payload. -/
def claimedFrame : Frame := ⟨.ubx, [0xB5, 0x62, 0x05, 0x01, 0x00, 0x00, 0x06, 0x17]⟩

/-- Bytes without a sync byte among them are all garbage. -/
theorem scan_of_no_sync : ∀ b : List UInt8, (∀ x ∈ b, isSync x = false) →
    framesOf (coreScanner.scan b).1 = []
  | [], _ => by
    rw [coreScanner.scan_of_none coreScanner.head_nil]
    rfl
  | x :: b, h => by
    have hhead : coreScanner.head (x :: b) = some (1, .garbage) := by
      simp [coreScanner, coreHead, h x (by simp)]
    rw [coreScanner.scan_of_some hhead]
    exact scan_of_no_sync b fun y hy => h y (by simp [hy])

theorem framesOf_claimingGarbage {z : List UInt8} (hz : ∀ x ∈ z, isSync x = false) :
    framesOf (coreScanner.scan (claimingGarbage ++ claimedFrame.raw ++ z)).1 =
      [⟨.ubx, claimingGarbage ++ [ubxSync1, ubxSync2]⟩] := by
  have hhead : coreHead (claimingGarbage ++ claimedFrame.raw) = some (10, .frame .ubx) := by
    decide
  have hhead' : coreScanner.head (claimingGarbage ++ claimedFrame.raw ++ z) =
      some (10, .frame .ubx) := coreHead_append z hhead fun hst => absurd hst.2.1 (by decide)
  have htail : ∀ x ∈ ([0x05, 0x01, 0x00, 0x00, 0x06, 0x17] : List UInt8), isSync x = false := by
    simp [isSync, ubxSync1, rtcmPreamble, nmeaStart]
  have hrest : framesOf (coreScanner.scan ([0x05, 0x01, 0x00, 0x00, 0x06, 0x17] ++ z)).1 = [] := by
    refine scan_of_no_sync _ fun x hx => ?_
    rcases List.mem_append.1 hx with hx | hx
    · exact htail x hx
    · exact hz x hx
  rw [coreScanner.scan_of_some hhead']
  exact congrArg (List.cons (⟨.ubx, claimingGarbage ++ [ubxSync1, ubxSync2]⟩ : Frame)) hrest

/-- No frame is in the garbage, and yet the frame behind it is lost : the header in the
garbage takes its sync bytes for a checksum. -/
theorem Framer.feedAll_swallowed :
    (∀ (pre : List UInt8) (f : Frame) (post : List UInt8),
        claimingGarbage = pre ++ f.raw ++ post → ¬f.Valid) ∧
      claimedFrame.WellFormed ∧
      (fresh (1 <<< 20)).NoOverflow
        [claimingGarbage ++ claimedFrame.raw ++ List.replicate (ubxMaxPayload + 8) 0] ∧
      claimedFrame ∉ ((fresh (1 <<< 20)).feedAll
        [claimingGarbage ++ claimedFrame.raw ++ List.replicate (ubxMaxPayload + 8) 0]).1 := by
  have hvalid : claimedFrame.Valid :=
    ⟨0x05, 0x01, 0x00, 0x00, [], rfl, by decide, by decide⟩
  have hfit : (fresh (1 <<< 20)).NoOverflow
      [claimingGarbage ++ claimedFrame.raw ++ List.replicate (ubxMaxPayload + 8) 0] := by
    refine ⟨?_, trivial⟩
    rw [List.length_append, List.length_replicate]
    decide
  refine ⟨?_, ⟨hvalid, fun h => by simp [claimedFrame] at h⟩, hfit, ?_⟩
  · intro pre f post heq hf
    have key : ∀ i < 9, ∀ j < 9, ∀ e ∈ (coreHead ((claimingGarbage.drop i).take j)).map Prod.snd,
        e = .garbage ∨ e = .rejected false ∨ e = .rejected true := by decide
    have hlen := congrArg List.length heq
    simp only [List.length_append] at hlen
    have h8 : claimingGarbage.length = 8 := rfl
    have := key pre.length (by omega) f.raw.length (by omega) (.frame f.proto) (by
      rw [heq, List.append_assoc, List.drop_left, List.take_left, hf.coreHead]
      rfl)
    simp at this
  · have hscan : ∀ w, coreScanner.resume ([], []) w = coreScanner.scan w := fun w => by
      simp [Scanner.resume]
    rw [fresh_feedAll hfit, List.foldl_cons, List.foldl_nil, hscan]
    have hframes := framesOf_claimingGarbage (z := List.replicate (ubxMaxPayload + 8) 0)
      fun x hx => by rw [(List.mem_replicate.1 hx).2]; rfl
    rw [absorb, hframes]
    decide

end Mtrtk
