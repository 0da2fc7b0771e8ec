import Mathlib.Algebra.Order.Field.Rat
import Mtrtk.FrameScan

/-!
# The replay of a file

`core/source.py` : a `FileReplaySource` at the pace of the receiver. The file is read in pieces of
`REPLAY_READ` bytes and framed, and a `read` returns the frames up to the next marker, but no more
than `MAX_REPLAY_CHUNK` bytes of them. At the end of the file a source that loops starts over.

`ahead` is what is still to come in a pass : the frames that are pending, and those of the bytes
that are not read yet. `read_spec` : a read takes the frames of `cutEpoch` from it. The frames of
the whole file are cut so into the pieces of `cutPass`, and `replay_loses_nothing` says that the
reads return these, one after the other.

The bare yields to the event loop, and the source that is closed, are left out.
-/

namespace Mtrtk

/-- `REPLAY_READ`. -/
def replayRead : ℕ := 65536

/-- `MAX_REPLAY_CHUNK`. -/
def maxReplayChunk : ℕ := 262144

/-- `ubx_class_id`, of a UBX frame. -/
def Frame.isUbx (frame : Frame) (cls ident : UInt8) : Bool :=
  frame.proto = .ubx && byteAt frame.raw 2 = cls && byteAt frame.raw 3 = ident

/-- `NAV_PVT`. -/
def Frame.isNavPvt (frame : Frame) : Bool := frame.isUbx 0x01 0x07

/-- `NAV_EOE`. -/
def Frame.isNavEoe (frame : Frame) : Bool := frame.isUbx 0x01 0x61

/-- `_itow`. -/
def itowOf (raw : List UInt8) : ℕ := (slice raw 6 10).foldr (fun b n => b.toNat + 256 * n) 0

/-- `FileReplaySource`, open, with the bytes of the file. `eoeMarker` : the marker is NAV-EOE.
`pauses` is not in the source, the sleeps of `_pace` so far. -/
structure FileReplaySource where
  content : List UInt8
  loop : Bool
  speed : ℚ
  eoeMarker : Bool
  unread : List UInt8 := []
  framer : Framer := {}
  pending : List Frame := []
  eof : Bool := false
  eoeSincePvt : Bool := false
  lastItow : Option ℕ := none
  pauses : List ℚ := []
  frames : ℕ := 0

/-- A frame the framer finds is not empty. -/
theorem Framer.raw_ne_nil_of_loop : ∀ {k : ℕ} {f : Framer}, ∀ frame ∈ (f.loop k).1, frame.raw ≠ []
  | 0, f, frame, hmem => absurd hmem List.not_mem_nil
  | k + 1, f, frame, hmem => by
    rw [Framer.loop] at hmem
    split at hmem
    next => exact absurd hmem List.not_mem_nil
    next first rest hbuf =>
      split at hmem
      next =>
        split at hmem
        next => exact absurd hmem List.not_mem_nil
        next => exact raw_ne_nil_of_loop frame hmem
        next proto total hemit =>
          rcases List.mem_cons.1 hmem with rfl | hmem
          · obtain ⟨hpos, -⟩ := attempt_emit hemit
            simp only [Framer.emit, hbuf, ne_eq, List.take_eq_nil_iff, reduceCtorEq, or_false]
            omega
          · exact raw_ne_nil_of_loop frame hmem
      next => exact raw_ne_nil_of_loop frame hmem

theorem Framer.raw_ne_nil_of_feedAll : ∀ {ps : List (List UInt8)} {f : Framer},
    ∀ frame ∈ (f.feedAll ps).1, frame.raw ≠ []
  | [], f, frame, hmem => absurd hmem List.not_mem_nil
  | p :: ps, f, frame, hmem => by
    rcases List.mem_append.1 hmem with hmem | hmem
    · exact raw_ne_nil_of_loop frame hmem
    · exact raw_ne_nil_of_feedAll frame hmem

namespace FileReplaySource

/-- `_rewind`. -/
def rewind (s : FileReplaySource) : FileReplaySource :=
  { s with
    unread := s.content, framer := {}, pending := [], eof := false,
    eoeSincePvt := s.eoeMarker, lastItow := none, frames := 0 }

/-- `open`, where `_has_nav_eoe` answers `hasEoe`. -/
def openFile (content : List UInt8) (loop : Bool) (speed : ℚ) (hasEoe : Bool) : FileReplaySource :=
  rewind { content := content, loop := loop, speed := speed, eoeMarker := hasEoe }

/-- The `while` loop of `_next_frame`, at most `k` rounds. -/
def fill : ℕ → FileReplaySource → FileReplaySource
  | 0, s => s
  | k + 1, s =>
    if s.pending ≠ [] ∨ s.eof then s
    else if s.unread = [] then { s with eof := true }
    else
      let fed := s.framer.feed (s.unread.take replayRead)
      fill k { s with
        unread := s.unread.drop replayRead, framer := fed.2, pending := s.pending ++ fed.1 }

/-- `_next_frame`. Every round of its loop reads a byte at least, or is the last. -/
def nextFrame (s : FileReplaySource) : Option Frame × FileReplaySource :=
  let s := s.fill (s.unread.length + 1)
  match s.pending with
  | [] => (none, s)
  | frame :: pending => (some frame, { s with pending := pending, frames := s.frames + 1 })

/-- `_pace`. -/
def pace (s : FileReplaySource) (itow : ℕ) : FileReplaySource :=
  { s with
    lastItow := some itow
    pauses := match s.lastItow with
      | none => s.pauses
      | some last =>
        let delta : ℚ := ((itow : ℚ) - last) / 1000
        if 0 < s.speed ∧ 0 < delta ∧ delta < 60 then s.pauses ++ [delta / s.speed] else s.pauses }

/-- The `while` loop of `read`, with the bytes so far, `none` if `k` rounds are not enough. -/
def readLoop : ℕ → List UInt8 → Bool → FileReplaySource → Option (List UInt8 × FileReplaySource)
  | 0, _, _, _ => none
  | k + 1, chunk, rewound, s =>
    match s.nextFrame with
    | (none, s) =>
      if chunk ≠ [] ∨ !s.loop ∨ rewound then some (chunk, s) else readLoop k chunk true s.rewind
    | (some frame, s) =>
      if chunk ≠ [] ∧ maxReplayChunk < chunk.length + frame.raw.length then
        some (chunk, { s with pending := frame :: s.pending, frames := s.frames - 1 })
      else if frame.isNavEoe then
        some (chunk ++ frame.raw, { s with eoeSincePvt := true }.pace (itowOf frame.raw))
      else if frame.isNavPvt then
        let s' := { s.pace (itowOf frame.raw) with eoeSincePvt := false }
        if !s.eoeSincePvt then some (chunk ++ frame.raw, s')
        else readLoop k (chunk ++ frame.raw) rewound s'
      else readLoop k (chunk ++ frame.raw) rewound s

/-- `read`. Every frame adds a byte at least, so there are no more rounds than the bytes of a
chunk, one that rewinds and one that returns. -/
def read (s : FileReplaySource) : Option (List UInt8 × FileReplaySource) :=
  s.readLoop (maxReplayChunk + 2) [] false

/-- Successive reads. -/
def reads : ℕ → FileReplaySource → Option (List (List UInt8) × FileReplaySource)
  | 0, s => some ([], s)
  | n + 1, s => do
    let (chunk, s) ← s.read
    let (chunks, s) ← s.reads n
    return (chunk :: chunks, s)

/-! ## The frames of a file -/

/-- The bytes of a file as they are read. -/
def filePieces (data : List UInt8) : List (List UInt8) :=
  if data = [] then [] else data.take replayRead :: filePieces (data.drop replayRead)
  termination_by data.length
  decreasing_by
    have := List.length_pos_iff.2 ‹data ≠ []›
    simp only [List.length_drop, replayRead]
    omega

/-- The frames the framer finds in a file. -/
def fileFrames (content : List UInt8) : List Frame :=
  ((Framer.feedAll {} (filePieces content))).1

/-- The raw bytes of frames. -/
def rawOf (frames : List Frame) : List UInt8 := frames.flatMap Frame.raw

theorem filePieces_nil : filePieces [] = [] := by rw [filePieces, if_pos rfl]

theorem filePieces_cons {data : List UInt8} (h : data ≠ []) :
    filePieces data = data.take replayRead :: filePieces (data.drop replayRead) := by
  rw [filePieces, if_neg h]

/-- What is still to come in the pass. -/
def ahead (s : FileReplaySource) : List Frame :=
  s.pending ++ (s.framer.feedAll (filePieces s.unread)).1

/-- A pass of a file, with these frames to come. -/
structure At (content : List UInt8) (loop marker since : Bool) (frames : List Frame)
    (s : FileReplaySource) : Prop where
  content : s.content = content
  loop : s.loop = loop
  marker : s.eoeMarker = marker
  since : s.eoeSincePvt = since
  ahead : s.ahead = frames
  eof : s.eof = true → s.unread = [] ∧ s.pending = []

section

variable {content : List UInt8} {loop marker since : Bool} {frames : List Frame}
  {frame : Frame} {s : FileReplaySource}

theorem At.rewind (h : At content loop marker since frames s) :
    At content loop marker marker (fileFrames content) s.rewind where
  content := h.content
  loop := h.loop
  marker := h.marker
  since := h.marker
  ahead := by rw [← h.content]; rfl
  eof hfalse := absurd hfalse Bool.false_ne_true

theorem at_openFile (content : List UInt8) (loop : Bool) (speed : ℚ) (marker : Bool) :
    At content loop marker marker (fileFrames content) (openFile content loop speed marker) :=
  have hclosed : At content loop marker false []
      { content := content, loop := loop, speed := speed, eoeMarker := marker } :=
    ⟨rfl, rfl, rfl, rfl, by simp [FileReplaySource.ahead, filePieces_nil, Framer.feedAll], by simp⟩
  hclosed.rewind

theorem At.pace (h : At content loop marker since frames s) (itow : ℕ) :
    At content loop marker since frames (s.pace itow) :=
  ⟨h.content, h.loop, h.marker, h.since, h.ahead, h.eof⟩

theorem At.withSince (h : At content loop marker since frames s) (since' : Bool) :
    At content loop marker since' frames { s with eoeSincePvt := since' } :=
  ⟨h.content, h.loop, h.marker, rfl, h.ahead, h.eof⟩

/-- Reading ahead takes nothing, and finds a frame where there is one. -/
theorem At.fill : ∀ {k : ℕ} {s : FileReplaySource}, At content loop marker since frames s →
    At content loop marker since frames (s.fill k) ∧
      (s.unread.length < k → (s.fill k).pending = [] → frames = [])
  | 0, s, h => ⟨h, fun hlt => absurd hlt (by omega)⟩
  | k + 1, s, h => by
    rw [FileReplaySource.fill]
    split
    next hstop =>
      refine ⟨h, fun _ hnone => ?_⟩
      obtain ⟨hunread, -⟩ := h.eof (hstop.resolve_left fun hne => hne hnone)
      rw [← h.ahead, FileReplaySource.ahead, hnone, hunread, filePieces_nil]
      rfl
    next hmore =>
      obtain ⟨hpending, heof⟩ := not_or.1 hmore
      rw [not_not] at hpending
      split
      next hunread =>
        refine ⟨⟨h.content, h.loop, h.marker, h.since, h.ahead, fun _ => ⟨hunread, hpending⟩⟩,
          fun _ _ => ?_⟩
        rw [← h.ahead, FileReplaySource.ahead, hpending, hunread, filePieces_nil]
        rfl
      next hunread =>
        have hahead := h.ahead
        rw [FileReplaySource.ahead, filePieces_cons hunread, Framer.feedAll,
          ← List.append_assoc] at hahead
        have hread : At content loop marker since frames { s with
            unread := s.unread.drop replayRead
            framer := (s.framer.feed (s.unread.take replayRead)).2
            pending := s.pending ++ (s.framer.feed (s.unread.take replayRead)).1 } :=
          ⟨h.content, h.loop, h.marker, h.since, hahead, fun he => absurd he heof⟩
        obtain ⟨hat, hend⟩ := At.fill (k := k) hread
        refine ⟨hat, fun hlt => hend ?_⟩
        have hpos := List.length_pos_iff.2 hunread
        simp only [List.length_drop, replayRead]
        omega

theorem At.nextFrame_nil (h : At content loop marker since [] s) :
    ∃ s', s.nextFrame = (none, s') ∧ At content loop marker since [] s' := by
  obtain ⟨hat, -⟩ := h.fill (k := s.unread.length + 1)
  have hnone : (s.fill (s.unread.length + 1)).pending = [] :=
    (List.append_eq_nil_iff.1 hat.ahead).1
  exact ⟨_, by simp only [nextFrame, hnone], hat⟩

theorem At.nextFrame_cons (h : At content loop marker since (frame :: frames) s) :
    ∃ s', s.nextFrame = (some frame, s') ∧ At content loop marker since frames s' ∧
      ∀ n, At content loop marker since (frame :: frames)
        { s' with pending := frame :: s'.pending, frames := n } := by
  obtain ⟨hat, hfound⟩ := h.fill (k := s.unread.length + 1)
  obtain ⟨t, ht⟩ : ∃ t, s.fill (s.unread.length + 1) = t := ⟨_, rfl⟩
  rw [ht] at hat hfound
  have hahead := hat.ahead
  rw [FileReplaySource.ahead] at hahead
  cases hpending : t.pending with
  | nil => exact absurd (hfound (by omega) hpending) (by simp)
  | cons first pending =>
    rw [hpending, List.cons_append] at hahead
    obtain ⟨rfl, hrest⟩ := List.cons.inj hahead
    have heof : t.eof ≠ true := fun he => by simp [(hat.eof he).2] at hpending
    refine ⟨{ t with pending := pending, frames := t.frames + 1 }, by
      simp only [nextFrame, ht, hpending], ?_, fun n => ?_⟩
    · exact ⟨hat.content, hat.loop, hat.marker, hat.since, hrest, fun he => absurd he heof⟩
    · exact ⟨hat.content, hat.loop, hat.marker, hat.since, hahead, fun he => absurd he heof⟩

end

/-! ## Epochs -/

/-- The frames of a read, from those that are to come, after `length` bytes of it. -/
def cutEpoch (since : Bool) (length : ℕ) : List Frame → List Frame × Bool × List Frame
  | [] => ([], since, [])
  | frame :: frames =>
    if length ≠ 0 ∧ maxReplayChunk < length + frame.raw.length then ([], since, frame :: frames)
    else if frame.isNavEoe then ([frame], true, frames)
    else if frame.isNavPvt then
      if !since then ([frame], false, frames)
      else
        let r := cutEpoch false (length + frame.raw.length) frames
        (frame :: r.1, r.2)
    else
      let r := cutEpoch since (length + frame.raw.length) frames
      (frame :: r.1, r.2)

/-- It is the front of them. -/
theorem cutEpoch_append (since : Bool) (length : ℕ) (frames : List Frame) :
    (cutEpoch since length frames).1 ++ (cutEpoch since length frames).2.2 = frames := by
  fun_induction cutEpoch since length frames with
  | case1 => rfl
  | case2 => rfl
  | case3 => rfl
  | case4 => rfl
  | case5 since length frame frames _ _ _ _ r ih => exact congrArg (frame :: ·) ih
  | case6 since length frame frames _ _ _ r ih => exact congrArg (frame :: ·) ih

theorem cutEpoch_ne_nil (since : Bool) (frame : Frame) (frames : List Frame) :
    (cutEpoch since 0 (frame :: frames)).1 ≠ [] := by
  rw [cutEpoch, if_neg (by simp)]
  split_ifs <;> simp

theorem cutEpoch_length (since : Bool) (frame : Frame) (frames : List Frame) :
    (cutEpoch since 0 (frame :: frames)).2.2.length < (frame :: frames).length := by
  have happend := congrArg List.length (cutEpoch_append since 0 (frame :: frames))
  have hpos := List.length_pos_iff.2 (cutEpoch_ne_nil since frame frames)
  rw [List.length_append] at happend
  omega

/-- It is no longer than a read may be, or a single frame. -/
theorem cutEpoch_size (since : Bool) (length : ℕ) (frames : List Frame)
    (hraw : ∀ f ∈ frames, f.raw ≠ []) :
    (cutEpoch since length frames).1 = [] ∨
      length + (rawOf (cutEpoch since length frames).1).length ≤ maxReplayChunk ∨
      length = 0 ∧ (cutEpoch since length frames).1.length = 1 := by
  have hone : ∀ {length : ℕ} {frame : Frame},
      ¬(length ≠ 0 ∧ maxReplayChunk < length + frame.raw.length) →
      length + (rawOf [frame]).length ≤ maxReplayChunk ∨ length = 0 := fun {length frame} h => by
    simp only [rawOf, List.flatMap_singleton]
    omega
  have hmore : ∀ {length : ℕ} {frame : Frame} {rest : List Frame}, frame.raw ≠ [] →
      ¬(length ≠ 0 ∧ maxReplayChunk < length + frame.raw.length) →
      (rest = [] ∨ length + frame.raw.length + (rawOf rest).length ≤ maxReplayChunk ∨
        length + frame.raw.length = 0 ∧ rest.length = 1) →
      length + (rawOf (frame :: rest)).length ≤ maxReplayChunk ∨
        length = 0 ∧ (frame :: rest).length = 1 := fun {length frame rest} hne hfits hrest => by
    have hpos := List.length_pos_iff.2 hne
    rcases hrest with rfl | hrest | ⟨hzero, -⟩
    · exact (hone hfits).imp_right fun h => ⟨h, rfl⟩
    · rw [rawOf, List.flatMap_cons, List.length_append]
      exact .inl (by rw [rawOf] at hrest; omega)
    · omega
  fun_induction cutEpoch since length frames with
  | case1 => exact .inl rfl
  | case2 => exact .inl rfl
  | case3 since length frame frames hfits =>
    exact .inr ((hone hfits).imp_right fun h => ⟨h, rfl⟩)
  | case4 since length frame frames hfits =>
    exact .inr ((hone hfits).imp_right fun h => ⟨h, rfl⟩)
  | case5 since length frame frames hfits _ _ _ r ih =>
    obtain ⟨hframe, hframes⟩ := List.forall_mem_cons.1 hraw
    exact .inr (hmore hframe hfits (ih hframes))
  | case6 since length frame frames hfits _ _ r ih =>
    obtain ⟨hframe, hframes⟩ := List.forall_mem_cons.1 hraw
    exact .inr (hmore hframe hfits (ih hframes))

section

variable {content : List UInt8} {loop marker since : Bool} {frames : List Frame}
  {s : FileReplaySource}

/-- The rounds of a read take the frames of an epoch. -/
theorem At.readLoop : ∀ {k : ℕ} {frames : List Frame} {since : Bool} {chunk : List UInt8}
    {s : FileReplaySource}, At content loop marker since frames s → ∀ rewound : Bool,
    (∀ f ∈ frames, f.raw ≠ []) → maxReplayChunk - chunk.length < k →
    (frames = [] → chunk ≠ [] ∨ loop = false ∨ rewound = true) →
    ∃ s', s.readLoop k chunk rewound =
        some (chunk ++ rawOf (cutEpoch since chunk.length frames).1, s') ∧
      At content loop marker (cutEpoch since chunk.length frames).2.1
        (cutEpoch since chunk.length frames).2.2 s'
  | 0, _, _, _, _, _, _, _, hk, _ => absurd hk (by omega)
  | k + 1, [], since, chunk, s, h, rewound, _, _, hend => by
    obtain ⟨s', hnext, hat⟩ := h.nextFrame_nil
    refine ⟨s', ?_, hat⟩
    have hstop : chunk ≠ [] ∨ !s'.loop ∨ rewound := by simpa [hat.loop] using hend rfl
    rw [FileReplaySource.readLoop, hnext]
    simp only [if_pos hstop, cutEpoch, rawOf, List.flatMap_nil, List.append_nil]
  | k + 1, frame :: frames, since, chunk, s, h, rewound, hraw, hk, _ => by
    obtain ⟨hframe, hframes⟩ := List.forall_mem_cons.1 hraw
    obtain ⟨s', hnext, hat, hback⟩ := h.nextFrame_cons
    have hpos := List.length_pos_iff.2 hframe
    have hlen : chunk ≠ [] ↔ chunk.length ≠ 0 := (not_congr List.length_eq_zero_iff).symm
    rw [FileReplaySource.readLoop, hnext, cutEpoch]
    simp only [hlen]
    by_cases hfull : chunk.length ≠ 0 ∧ maxReplayChunk < chunk.length + frame.raw.length
    · simp only [if_pos hfull, rawOf, List.flatMap_nil, List.append_nil]
      exact ⟨_, rfl, hback _⟩
    simp only [if_neg hfull]
    have hmore : ∀ {since' : Bool} {t : FileReplaySource}, At content loop marker since' frames t →
        ∃ t', t.readLoop k (chunk ++ frame.raw) rewound =
            some (chunk ++ rawOf (frame ::
              (cutEpoch since' (chunk.length + frame.raw.length) frames).1), t') ∧
          At content loop marker (cutEpoch since' (chunk.length + frame.raw.length) frames).2.1
            (cutEpoch since' (chunk.length + frame.raw.length) frames).2.2 t' :=
        fun {since' t} ht => by
      have hmax : 0 < maxReplayChunk := by decide
      have hk' : maxReplayChunk - (chunk ++ frame.raw).length < k := by
        rw [List.length_append]
        omega
      have hend : frames = [] → chunk ++ frame.raw ≠ [] ∨ loop = false ∨ rewound = true :=
        fun _ => .inl (by simp [hframe])
      have hrest := ht.readLoop rewound hframes hk' hend
      rw [List.length_append] at hrest
      simpa [rawOf, List.append_assoc] using hrest
    have hone : rawOf [frame] = frame.raw := by simp [rawOf]
    by_cases heoe : frame.isNavEoe = true
    · simp only [if_pos heoe, hone]
      exact ⟨_, rfl, (hat.withSince true).pace _⟩
    simp only [if_neg heoe]
    by_cases hpvt : frame.isNavPvt = true
    · simp only [if_pos hpvt]
      have hsince := hat.since
      cases since with
      | false =>
        simp only [hsince, Bool.not_false, if_true, hone]
        exact ⟨_, rfl, (hat.pace _).withSince false⟩
      | true =>
        simp only [hsince, Bool.not_true, Bool.false_eq_true, if_false]
        exact hmore ((hat.pace _).withSince false)
    · simp only [if_neg hpvt]
      exact hmore hat

/-- A read takes an epoch of what is to come, or, at the end of a pass of a source that loops, of
the whole file. -/
theorem read_spec (h : At content loop marker since frames s) (hraw : ∀ f ∈ frames, f.raw ≠ [])
    (hfile : ∀ f ∈ fileFrames content, f.raw ≠ []) :
    ∃ since' frames', ((frames ≠ [] ∨ loop = false) ∧ since' = since ∧ frames' = frames ∨
        frames = [] ∧ loop = true ∧ since' = marker ∧ frames' = fileFrames content) ∧
      ∃ s', s.read = some (rawOf (cutEpoch since' 0 frames').1, s') ∧
        At content loop marker (cutEpoch since' 0 frames').2.1
          (cutEpoch since' 0 frames').2.2 s' := by
  have hk : maxReplayChunk - ([] : List UInt8).length < maxReplayChunk + 2 := by
    simp only [List.length_nil]
    omega
  by_cases hmore : frames ≠ [] ∨ loop = false
  · refine ⟨since, frames, .inl ⟨hmore, rfl, rfl⟩, ?_⟩
    exact h.readLoop false hraw hk fun hnil =>
      .inr (.inl (hmore.resolve_left fun hne => hne hnil))
  · obtain ⟨hnil, hloop⟩ := not_or.1 hmore
    rw [not_not] at hnil
    rw [Bool.not_eq_false] at hloop
    subst hnil hloop
    refine ⟨marker, fileFrames content, .inr ⟨rfl, rfl, rfl, rfl⟩, ?_⟩
    obtain ⟨s', hnext, hat⟩ := h.nextFrame_nil
    have hk' : maxReplayChunk - ([] : List UInt8).length < maxReplayChunk + 1 := by
      simp only [List.length_nil]
      omega
    have hback := hat.rewind.readLoop true hfile hk' fun _ => .inr (.inr rfl)
    rw [read, FileReplaySource.readLoop, hnext]
    simp only [hat.loop, ne_eq, not_true_eq_false, Bool.not_true, Bool.false_eq_true, or_self,
      if_false]
    exact hback

end

/-! ## A pass -/

/-- The frames of a pass, cut into those of its reads. -/
def cutPass (since : Bool) : List Frame → List (List Frame)
  | [] => []
  | frame :: frames =>
    let r := cutEpoch since 0 (frame :: frames)
    r.1 :: cutPass r.2.1 r.2.2
  termination_by frames => frames.length
  decreasing_by exact cutEpoch_length since frame frames

theorem cutPass_flatten (since : Bool) (frames : List Frame) :
    (cutPass since frames).flatten = frames := by
  fun_induction cutPass since frames with
  | case1 => rfl
  | case2 since frame frames r ih =>
    rw [List.flatten_cons, ih]
    exact cutEpoch_append since 0 (frame :: frames)

theorem cutPass_size (since : Bool) (frames : List Frame) (hraw : ∀ f ∈ frames, f.raw ≠ []) :
    ∀ piece ∈ cutPass since frames, rawOf piece ≠ [] ∧
      ((rawOf piece).length ≤ maxReplayChunk ∨ piece.length = 1) := by
  fun_induction cutPass since frames with
  | case1 => simp
  | case2 since frame frames r ih =>
    have happend := cutEpoch_append since 0 (frame :: frames)
    have hne := cutEpoch_ne_nil since frame frames
    refine List.forall_mem_cons.2 ⟨⟨?_, ?_⟩, ih fun f hf => hraw f ?_⟩
    · obtain ⟨first, rest, hcons⟩ := List.exists_cons_of_ne_nil hne
      have hfirst : first ∈ frame :: frames := by
        rw [← happend, hcons]
        simp
      have hmem : first.raw ≠ [] := hraw first hfirst
      rw [hcons, rawOf, List.flatMap_cons]
      simp [hmem]
    · rcases cutEpoch_size since 0 _ hraw with hnil | hle | ⟨-, hone⟩
      · exact absurd hnil hne
      · rw [Nat.zero_add] at hle
        exact .inl hle
      · exact .inr hone
    · rw [← happend]
      exact List.mem_append_right _ hf

/-- The next piece of a pass, and the pass after it. -/
theorem cutPass_step {since : Bool} {frames : List Frame} {pieces : List (List Frame)} {p : ℕ}
    (h : cutPass since frames = pieces.drop p) :
    pieces.getD p [] = (cutEpoch since 0 frames).1 ∧
      cutPass (cutEpoch since 0 frames).2.1 (cutEpoch since 0 frames).2.2 =
        pieces.drop (p + 1) := by
  cases frames with
  | nil =>
    rw [cutPass] at h
    have hle := List.drop_eq_nil_iff.1 h.symm
    refine ⟨?_, ?_⟩
    · rw [List.getD_eq_getElem?_getD, List.getElem?_eq_none hle]
      rfl
    · rw [List.drop_eq_nil_of_le (by omega), cutEpoch, cutPass]
  | cons frame frames =>
    rw [cutPass] at h
    have hget := congrArg List.head? h
    have htail := congrArg List.tail h
    rw [List.head?_drop] at hget
    rw [List.tail_drop] at htail
    exact ⟨by rw [List.getD_eq_getElem?_getD, ← hget]; rfl, htail⟩

/-! ## The reads -/

theorem raw_ne_nil_of_fileFrames {content : List UInt8} : ∀ f ∈ fileFrames content, f.raw ≠ [] :=
  Framer.raw_ne_nil_of_feedAll

/-- The number of the next piece after `i` reads, of `n` pieces. -/
def Position (loop : Bool) (n i p : ℕ) : Prop :=
  if loop then n = 0 ∨ p ≤ n ∧ ∃ m, i = m * n + p else p = i

/-- After `i` reads of a file, the pieces from one on are to come. -/
def AfterReads (content : List UInt8) (loop marker : Bool) (i : ℕ) (s : FileReplaySource) : Prop :=
  ∃ since frames p, At content loop marker since frames s ∧ (∀ f ∈ frames, f.raw ≠ []) ∧
    cutPass since frames = (cutPass marker (fileFrames content)).drop p ∧
    Position loop (cutPass marker (fileFrames content)).length i p

/-- The bytes that read `i` returns, of the pieces of a pass. -/
def pieceAt (loop : Bool) (pieces : List (List Frame)) (i : ℕ) : List UInt8 :=
  rawOf (pieces.getD (if loop then i % pieces.length else i) [])

section

variable {content : List UInt8} {loop marker : Bool} {i : ℕ} {s : FileReplaySource}

theorem AfterReads.read (h : AfterReads content loop marker i s) :
    ∃ s', s.read = some (pieceAt loop (cutPass marker (fileFrames content)) i, s') ∧
      AfterReads content loop marker (i + 1) s' := by
  obtain ⟨since, frames, p, hat, hraw, hpass, hpos⟩ := h
  obtain ⟨pieces, hpieces⟩ : ∃ pieces, cutPass marker (fileFrames content) = pieces := ⟨_, rfl⟩
  obtain ⟨since', frames', hfrom, s', hread, hat'⟩ := read_spec hat hraw raw_ne_nil_of_fileFrames
  rw [hpieces] at hpass hpos
  -- The piece it starts from, which is the first where the pass begins again.
  obtain ⟨p', hpass', hraw', hindex, hnext⟩ : ∃ p', cutPass since' frames' = pieces.drop p' ∧
      (∀ f ∈ frames', f.raw ≠ []) ∧ pieceAt loop pieces i = rawOf (pieces.getD p' []) ∧
        Position loop pieces.length (i + 1) (p' + 1) := by
    rcases hfrom with ⟨hmore, rfl, rfl⟩ | ⟨rfl, rfl, rfl, rfl⟩
    · refine ⟨p, hpass, hraw, ?_⟩
      cases loop with
      | false => exact ⟨by rw [show p = i from hpos]; rfl, congrArg (· + 1) hpos⟩
      | true =>
        obtain ⟨frame, rest, rfl⟩ := List.exists_cons_of_ne_nil (hmore.resolve_right (by simp))
        have hlt : p < pieces.length := by
          rw [cutPass] at hpass
          by_contra hge
          rw [List.drop_eq_nil_of_le (by omega)] at hpass
          exact absurd hpass (by simp)
        rcases hpos with hzero | ⟨-, m, rfl⟩
        · omega
        · refine ⟨?_, .inr ⟨hlt, m, Nat.add_assoc _ _ _⟩⟩
          rw [pieceAt, if_pos rfl, Nat.mul_comm, Nat.mul_add_mod, Nat.mod_eq_of_lt hlt]
    · refine ⟨0, hpieces, raw_ne_nil_of_fileFrames, ?_⟩
      rw [cutPass] at hpass
      have hge := List.drop_eq_nil_iff.1 hpass.symm
      by_cases hzero : pieces.length = 0
      · rw [List.length_eq_zero_iff.1 hzero]
        exact ⟨rfl, .inl rfl⟩
      · obtain ⟨hle, m, rfl⟩ := hpos.resolve_left hzero
        obtain rfl : p = pieces.length := by omega
        refine ⟨?_, .inr ⟨by omega, m + 1, ?_⟩⟩
        · rw [pieceAt, if_pos rfl, ← Nat.succ_mul, Nat.mul_mod_left]
        · rw [Nat.succ_mul]
  obtain ⟨hget, hrest⟩ := cutPass_step hpass'
  refine ⟨s', ?_, _, _, p' + 1, hat', fun f hf => hraw' f ?_, ?_, ?_⟩
  · rw [hread, hpieces, hindex, hget]
  · rw [← cutEpoch_append since' 0 frames']
    exact List.mem_append_right _ hf
  · rw [hrest, hpieces]
  · rw [hpieces]
    exact hnext

theorem AfterReads.reads (h : AfterReads content loop marker i s) (n : ℕ) :
    (s.reads n).map Prod.fst = some ((List.range n).map fun k =>
      pieceAt loop (cutPass marker (fileFrames content)) (i + k)) := by
  induction n generalizing i s with
  | zero => rfl
  | succ n ih =>
    obtain ⟨s', hread, hafter⟩ := h.read
    obtain ⟨⟨chunks, s''⟩, hreads, hchunks⟩ := Option.map_eq_some_iff.1 (ih hafter)
    have hshift : ∀ k, i + 1 + k = i + (k + 1) := fun k => by omega
    have hsucc : s.reads (n + 1) =
        some (pieceAt loop (cutPass marker (fileFrames content)) i :: chunks, s'') := by
      simp [FileReplaySource.reads, hread, hreads]
    simp only [hshift] at hchunks
    rw [hsucc, List.range_succ_eq_map, List.map_cons, List.map_map, Option.map_some, hchunks]
    rfl

end

/-- The frames found in a file are cut into pieces, none of them empty and none longer than a read
may be unless it is one frame. Read after read returns piece after piece, and then nothing for ever,
or the same pieces again from the first ; where there are none, nothing in either case. -/
theorem replay_loses_nothing (content : List UInt8) (hasEoe : Bool) :
    ∃ pieces : List (List Frame), pieces.flatten = fileFrames content ∧
      (∀ piece ∈ pieces, rawOf piece ≠ [] ∧
        ((rawOf piece).length ≤ maxReplayChunk ∨ piece.length = 1)) ∧
      ∀ (loop : Bool) (speed : ℚ) (n : ℕ),
        ((openFile content loop speed hasEoe).reads n).map Prod.fst =
          some ((List.range n).map fun i =>
            rawOf (pieces.getD (if loop then i % pieces.length else i) [])) := by
  refine ⟨cutPass hasEoe (fileFrames content), cutPass_flatten _ _,
    cutPass_size _ _ raw_ne_nil_of_fileFrames, fun loop speed n => ?_⟩
  have hstart : AfterReads content loop hasEoe 0 (openFile content loop speed hasEoe) := by
    refine ⟨_, _, 0, at_openFile content loop speed hasEoe, raw_ne_nil_of_fileFrames, rfl, ?_⟩
    cases loop with
    | false => rfl
    | true => exact .inr ⟨Nat.zero_le _, 0, by simp⟩
  simpa [pieceAt] using hstart.reads n

end FileReplaySource

end Mtrtk
