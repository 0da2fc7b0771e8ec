import Mtrtk.SbgFrames

/-!
# SBG framing

`IsFrame` says byte by byte what a frame is, naming neither a buffer nor an attempt ;
`Standard` and `Extended` are the two kinds the framer accepts, by bit 7 of the class.

`Standard.head` : a standard frame at the head of the buffer is emitted, whatever
follows ; `Event.fits_of_head` : whatever is emitted or dropped is one. What the framer
waits on is shorter than the longest frame (`head_none_length`), so no false start holds
a frame back for ever. `sbg_framing` puts this together, with frames built by `encode`
one after the other as the stream that loses nothing.
-/

namespace Mtrtk

namespace Sbg

/-! ## Frames -/

/-- A frame of a class in `wire` : sync pair, id, class, the length of the payload, the
payload, the CRC of all but the sync pair, and the end byte. -/
def IsFrame (wire : UInt8 → Prop) (raw : List UInt8) : Prop :=
  ∃ ident cls lo hi payload c₁ c₂, wire cls ∧ payload.length = lo.toNat + 256 * hi.toNat ∧
    payload.length ≤ maxPayload ∧
    crc16Kermit (ident :: cls :: lo :: hi :: payload) = c₁.toNat + 256 * c₂.toNat ∧
    raw = sync1 :: sync2 :: (ident :: cls :: lo :: hi :: payload) ++ [c₁, c₂, etx]

/-- A class of `WIRE_CLASSES` once bit 7 is masked off. -/
def Wire (cls : UInt8) : Prop := (cls &&& ~~~extendedClass).toNat ∈ wireClasses

/-- A standard frame. -/
def Standard (raw : List UInt8) : Prop := IsFrame (fun cls => cls.toNat ∈ wireClasses) raw

/-- An extended frame. -/
def Extended (raw : List UInt8) : Prop :=
  IsFrame (fun cls => cls &&& extendedClass ≠ 0 ∧ Wire cls) raw

theorem mem_wireClasses_iff (cls : UInt8) :
    cls.toNat ∈ wireClasses ↔ cls &&& extendedClass = 0 ∧ Wire cls := by
  have key : ∀ k < 256, (UInt8.ofNat k).toNat ∈ wireClasses ↔
      UInt8.ofNat k &&& extendedClass = 0 ∧
        (UInt8.ofNat k &&& ~~~extendedClass).toNat ∈ wireClasses := by decide +kernel
  have := key cls.toNat cls.toNat_lt
  rwa [UInt8.ofNat_toNat] at this

/-- The longest frame. -/
def maxFrame : ℕ := header + maxPayload + trailer

/-- The bytes of an event are what it stands for. -/
def Event.Fits : Event → List UInt8 → Prop
  | .skipped, c => c.length = 1
  | .rejected _, c => c.length = 1
  | .extended, c => Extended c
  | .frame, c => Standard c

/-- The event accepts a frame. -/
def Event.Accepted (e : Event) : Prop := e = .extended ∨ e = .frame

theorem payloadLength_cons (s₁ s₂ ident cls lo hi : UInt8) (rest : List UInt8) :
    payloadLength (s₁ :: s₂ :: ident :: cls :: lo :: hi :: rest) = lo.toNat + 256 * hi.toNat :=
  or_shiftLeft_eq lo hi

theorem byteAt_header_add (s₁ s₂ ident cls lo hi : UInt8) (rest : List UInt8) (i : ℕ) :
    byteAt (s₁ :: s₂ :: ident :: cls :: lo :: hi :: rest) (6 + i) = rest.getD i 0 := by
  rw [Nat.add_comm]
  rfl

/-- The header, payload and trailer of a complete candidate. -/
theorem isFrame_of_candidate {b : List UInt8} {n : ℕ} (h : candidate b = .complete n)
    (hb : ∃ rest, b = sync1 :: sync2 :: rest) :
    IsFrame (fun cls => byteAt (b.take n) 3 = cls ∧ Wire cls) (b.take n) := by
  obtain ⟨hn, hle, hmax, hcls, hetx, hcrc⟩ := candidate_complete h
  obtain ⟨s₁, s₂, ident, cls, lo, hi, rest, hsix⟩ := exists_cons_six (b := b) (by omega)
  obtain ⟨rest', rfl⟩ := hb
  obtain ⟨rfl, rfl, rfl⟩ : sync1 = s₁ ∧ sync2 = s₂ ∧ rest' = ident :: cls :: lo :: hi :: rest := by
    simpa using hsix
  rw [payloadLength_cons] at hn hmax hcrc
  set L := lo.toNat + 256 * hi.toNat with hL
  rw [slice_header] at hcrc
  simp only [List.length_cons] at hle
  obtain ⟨c₁, c₂, c₃, htail⟩ := exists_take_three (n := L) (l := rest) (by omega)
  have hbyte : ∀ i x, i < 3 → [c₁, c₂, c₃][i]? = some x →
      byteAt (sync1 :: sync2 :: ident :: cls :: lo :: hi :: rest) (6 + L + i) = x := by
    intro i x hi3 hx
    rw [← htail, List.getElem?_take_of_lt hi3, List.getElem?_drop] at hx
    rw [Nat.add_assoc, byteAt_header_add, List.getD_eq_getElem?_getD, hx, Option.getD_some]
  rw [show n - 1 = 6 + L + 2 by omega, hbyte 2 c₃ (by omega) rfl] at hetx
  have hfield : crcField (sync1 :: sync2 :: ident :: cls :: lo :: hi :: rest) L =
      c₁.toNat + 256 * c₂.toNat := by
    rw [← or_shiftLeft_eq, crcField, header]
    have h₁ := hbyte 0 c₁ (by omega) rfl
    rw [Nat.add_zero] at h₁
    rw [h₁, hbyte 1 c₂ (by omega) rfl]
  have hlen : (rest.take L).length = L := by
    rw [List.length_take]
    omega
  refine ⟨ident, cls, lo, hi, rest.take L, c₁, c₂, ⟨?_, hcls⟩, hlen, by omega, ?_, ?_⟩
  · rw [hn, show 6 + L + 3 = L + 9 by omega]
    rfl
  · rw [← hcrc, hfield]
  · rw [hn, show 6 + L + 3 = L + 3 + 6 by omega]
    simp only [List.take_succ_cons, List.take_add, htail, hetx, List.cons_append]

/-- A frame, whatever follows it, is a complete candidate. -/
theorem candidate_of_isFrame {raw : List UInt8} (h : IsFrame Wire raw) :
    candidate raw = .complete raw.length := by
  obtain ⟨ident, cls, lo, hi, payload, c₁, c₂, hcls, hlen, hmax, hcrc, rfl⟩ := h
  set raw := sync1 :: sync2 :: (ident :: cls :: lo :: hi :: payload) ++ [c₁, c₂, etx] with hraw
  have hL : payloadLength raw = payload.length := by
    rw [hlen]
    exact payloadLength_cons _ _ _ _ _ _ _
  have htotal : raw.length = 6 + payload.length + 3 := by
    simp [hraw]
    omega
  have h3 : byteAt raw 3 = cls := rfl
  have hbody : slice raw 2 (6 + payload.length) = ident :: cls :: lo :: hi :: payload := by
    rw [hraw, List.cons_append, List.cons_append, List.cons_append, List.cons_append,
      List.cons_append, List.cons_append, slice_header, List.take_left]
  have hbyte : ∀ i, byteAt raw (6 + payload.length + i) = [c₁, c₂, etx].getD i 0 := by
    intro i
    rw [Nat.add_assoc, hraw, List.cons_append, List.cons_append, List.cons_append,
      List.cons_append, List.cons_append, List.cons_append, byteAt_header_add,
      List.getD_eq_getElem?_getD, List.getD_eq_getElem?_getD,
      List.getElem?_append_right (by omega), Nat.add_sub_cancel_left]
  have hfield :
      crcField raw payload.length = crc16Kermit (ident :: cls :: lo :: hi :: payload) := by
    have h₀ := hbyte 0
    rw [Nat.add_zero] at h₀
    rw [crcField, header, h₀, hbyte 1, hcrc]
    exact or_shiftLeft_eq c₁ c₂
  unfold candidate header trailer
  simp only [hL, h3, hbody, hfield, hbyte,
    show 6 + payload.length + 3 - 1 = 6 + payload.length + 2 by omega]
  have hwire : ¬(payload.length > maxPayload ∨ (cls &&& ~~~extendedClass).toNat ∉ wireClasses) :=
    not_or.2 ⟨by omega, not_not.2 hcls⟩
  rw [if_neg (by omega), if_neg hwire, if_neg (by omega), if_neg (by simp), htotal]

theorem IsFrame.mono {wire wire' : UInt8 → Prop} (hw : ∀ c, wire c → wire' c) {raw : List UInt8}
    (h : IsFrame wire raw) : IsFrame wire' raw := by
  obtain ⟨ident, cls, lo, hi, payload, c₁, c₂, hcls, h⟩ := h
  exact ⟨ident, cls, lo, hi, payload, c₁, c₂, hw cls hcls, h⟩

/-- The class of a frame is its byte 3. -/
theorem IsFrame.byteAt_three {wire : UInt8 → Prop} {raw : List UInt8} (h : IsFrame wire raw) :
    wire (byteAt raw 3) := by
  obtain ⟨ident, cls, lo, hi, payload, c₁, c₂, hcls, -, -, -, rfl⟩ := h
  exact hcls

theorem head_of_isFrame {raw : List UInt8} (h : IsFrame Wire raw) :
    scanner.head raw = some (raw.length, if isExtended raw then .extended else .frame) := by
  have hc := candidate_of_isFrame h
  obtain ⟨ident, cls, lo, hi, payload, c₁, c₂, -, -, -, -, rfl⟩ := h
  rw [scanner_head]
  simp only [List.cons_append] at hc ⊢
  rw [head, if_pos ⟨rfl, rfl⟩, hc]
  simp only [List.take_length]

/-- A standard frame is emitted. -/
theorem Standard.head {raw : List UInt8} (h : Standard raw) :
    scanner.head raw = some (raw.length, .frame) := by
  have hbit := ((mem_wireClasses_iff _).1 h.byteAt_three).1
  rw [head_of_isFrame (h.mono fun c hc => ((mem_wireClasses_iff c).1 hc).2)]
  simp [isExtended, hbit]

/-- What the head of a buffer comes to is what its bytes are. -/
theorem Event.fits_of_head {b : List UInt8} {n : ℕ} {e : Event}
    (h : scanner.head b = some (n, e)) : e.Fits (b.take n) := by
  have hle := scanner.le h
  obtain ⟨-, ⟨rfl, rfl⟩ | ⟨crc, rfl, rfl⟩ | ⟨hb, hc, rfl⟩⟩ := head_cases h
  · exact List.length_take_of_le hle
  · exact List.length_take_of_le hle
  · have hf := isFrame_of_candidate hc hb
    cases hext : isExtended (b.take n) with
    | true =>
      refine hf.mono ?_
      rintro c ⟨rfl, hw⟩
      exact ⟨by simpa [isExtended] using hext, hw⟩
    | false =>
      refine hf.mono ?_
      rintro c ⟨rfl, hw⟩
      exact (mem_wireClasses_iff _).2 ⟨by simpa [isExtended] using hext, hw⟩

/-- What the framer waits on is shorter than the longest frame. -/
theorem head_none_length {b : List UInt8} (h : scanner.head b = none) : b.length < maxFrame := by
  have hmax : maxFrame = 4095 := rfl
  match b, h with
  | [], _ => simp [hmax]
  | [a], _ => simp [hmax]
  | a :: b :: rest, h =>
    rw [scanner_head, head] at h
    split_ifs at h
    cases hc : candidate (a :: b :: rest) with
    | badHeader => simp [hc] at h
    | badTrailer => simp [hc] at h
    | complete n => simp [hc] at h
    | wait =>
      have hpay : maxPayload = 4086 := rfl
      unfold candidate header trailer at hc
      dsimp only at hc
      split_ifs at hc
      · omega
      · omega

/-! ## Frames as `encode` builds them -/

theorem packU16_value {n : ℕ} (h : n < 65536) :
    ∃ lo hi, packU16 n = [lo, hi] ∧ n = lo.toNat + 256 * hi.toNat := by
  refine ⟨_, _, rfl, ?_⟩
  rw [UInt8.toNat_ofNat', UInt8.toNat_ofNat']
  omega

theorem standard_frameBytes {cls ident : UInt8} {payload : List UInt8}
    (hcls : cls.toNat ∈ wireClasses) (hmax : payload.length ≤ maxPayload) :
    Standard (frameBytes cls ident payload) := by
  have hpay : maxPayload = 4086 := rfl
  obtain ⟨lo, hi, hpack, hlen⟩ := packU16_value (n := payload.length) (by omega)
  obtain ⟨c₁, c₂, hpack', hcrc⟩ := packU16_value
    (crc16Kermit_lt (ident :: cls :: lo :: hi :: payload))
  refine ⟨ident, cls, lo, hi, payload, c₁, c₂, hcls, hlen, hmax, hcrc, ?_⟩
  simp [frameBytes, hpack, hpack']

/-- `encode` builds a frame of every wire class. -/
theorem encode_eq {msgClass msgId : ℕ} {payload : List UInt8} (hcls : msgClass ∈ wireClasses)
    (hid : msgId < 256) (hmax : payload.length ≤ maxPayload) :
    encode msgClass msgId payload =
        .ok (frameBytes (UInt8.ofNat msgClass) (UInt8.ofNat msgId) payload) ∧
      Standard (frameBytes (UInt8.ofNat msgClass) (UInt8.ofNat msgId) payload) := by
  have key : ∀ c ∈ wireClasses, c &&& extendedClass.toNat = 0 ∧ c < 256 := by decide
  obtain ⟨hbit, hlt⟩ := key msgClass hcls
  refine ⟨?_, standard_frameBytes ?_ hmax⟩
  · rw [encode, if_neg (by omega), if_neg (by omega), if_neg (by omega)]
  · rwa [UInt8.toNat_ofNat', Nat.mod_eq_of_lt (by omega)]

theorem mapM_encode : ∀ (msgs : List (ℕ × ℕ × List UInt8)),
    (∀ m ∈ msgs, m.1 ∈ wireClasses ∧ m.2.1 < 256 ∧ m.2.2.length ≤ maxPayload) →
      ∃ raws, msgs.mapM (fun m => encode m.1 m.2.1 m.2.2) = .ok raws ∧
        ∀ raw ∈ raws, Standard raw
  | [], _ => ⟨[], rfl, by simp⟩
  | m :: msgs, h => by
    obtain ⟨hcls, hid, hmax⟩ := h m (by simp)
    obtain ⟨henc, hstd⟩ := encode_eq hcls hid hmax
    obtain ⟨raws, hraws, hall⟩ := mapM_encode msgs fun x hx => h x (by simp [hx])
    refine ⟨_ :: raws, ?_, List.forall_mem_cons.2 ⟨hstd, hall⟩⟩
    rw [List.mapM_cons, henc, hraws]
    rfl

/-- Standard frames one after the other are what a fresh framer returns. -/
theorem feedAll_frames {raws ps : List (List UInt8)} (h : ∀ raw ∈ raws, Standard raw)
    (hps : ps.flatten = raws.flatten) :
    ({} : SbgFramer).feedAll ps =
      (raws.map fun raw => ⟨.sbg, raw⟩, { buf := [], stats := { frames := raws.length } }) := by
  have hconsumed : consumed (raws.map fun raw => (raw, Event.frame)) = raws.flatten := by
    simp [consumed, Function.comp_def]
  have hscan := scanner_stable.scan_consumed (raws.map fun raw => (raw, Event.frame)) (by
    intro x hx
    obtain ⟨raw, hraw, rfl⟩ := List.mem_map.1 hx
    exact (h raw hraw).head)
  have hframes : framesOf (raws.map fun raw => (raw, Event.frame)) =
      raws.map fun raw => ⟨.sbg, raw⟩ := by
    simp [framesOf, List.filterMap_map]
  have htally : ∀ (l : List (List UInt8)) (st : FramerStats),
      st.tally (l.map fun raw => (raw, Event.frame)) =
        { st with frames := st.frames + l.length } := by
    intro l
    induction l with
    | nil => exact fun st => rfl
    | cons x l ih =>
      intro st
      refine (ih { st with frames := st.frames + 1 }).trans ?_
      simp only [List.length_cons, FramerStats.mk.injEq, and_true]
      omega
  rw [SbgFramer.fresh_feedAll, hps, ← hconsumed, hscan, SbgFramer.absorb, hframes, htally]
  simp

/-! ## What the framer makes of a stream -/

/-- The stream `s` split into the events `evs` and the leftover, and what `feed` returned
and counted is what the events say. -/
structure Splits (s : List UInt8) (evs : List (List UInt8 × Event)) (out : List Frame × SbgFramer) :
    Prop where
  partition : consumed evs ++ out.2.buf = s
  fits : ∀ x ∈ evs, x.2.Fits x.1
  frames : out.1 = framesOf evs
  stats : out.2.stats = ({} : FramerStats).tally evs
  leftover : out.2.buf.length < maxFrame

theorem splits_scan (s : List UInt8) :
    Splits s (scanner.scan s).1 (({} : SbgFramer).absorb (scanner.scan s)) where
  partition := (scanner.trace_scan s).conserved
  fits x hx := by
    obtain ⟨E₁, E₂, hE⟩ := List.append_of_mem hx
    obtain ⟨hhead, hc⟩ := scanner.head_of_scan (Prod.ext hE rfl)
    have := Event.fits_of_head hhead
    rwa [← hc] at this
  frames := rfl
  stats := rfl
  leftover := head_none_length (scanner.head_scan_rest s)

/-- The event at the place of a standard frame is the frame. -/
theorem event_of_standard {pre raw post : List UInt8} (hraw : Standard raw)
    {E₁ E₂ : List (List UInt8 × Event)} {c : List UInt8} {e : Event}
    (hE : (scanner.scan (pre ++ raw ++ post)).1 = E₁ ++ (c, e) :: E₂)
    (hpre : (consumed E₁).length = pre.length) : c = raw ∧ e = .frame := by
  obtain ⟨hhead, hc⟩ := scanner.head_of_scan (Prod.ext hE rfl)
  rw [hpre, List.append_assoc, List.drop_left] at hhead hc
  have hframe := scanner_stable raw post _ hraw.head
  obtain ⟨hlen, rfl⟩ : raw.length = c.length ∧ Event.frame = e := by
    simpa using hframe.symm.trans hhead
  exact ⟨by rw [hc, ← hlen, List.take_left], rfl⟩

/-- A standard frame that nothing accepted before it runs into is emitted at its place,
once as many bytes follow its first as the longest frame has. -/
theorem mem_of_standard {pre raw post : List UInt8} (hraw : Standard raw)
    (hlong : maxFrame ≤ raw.length + post.length)
    (hclear : ∀ E₁ x E₂, (scanner.scan (pre ++ raw ++ post)).1 = E₁ ++ x :: E₂ → x.2.Accepted →
      (consumed E₁).length < pre.length → (consumed E₁).length + x.1.length ≤ pre.length) :
    ∃ E₁ E₂, (scanner.scan (pre ++ raw ++ post)).1 = E₁ ++ (raw, .frame) :: E₂ ∧
      (consumed E₁).length = pre.length := by
  set s := pre ++ raw ++ post with hs
  have hsplit := splits_scan s
  have hlt : pre.length < (consumed (scanner.scan s).1).length := by
    have hlen := congrArg List.length hsplit.partition
    have hleft := hsplit.leftover
    have hall : s.length = pre.length + (raw.length + post.length) := by simp [hs]
    rw [List.length_append] at hlen
    omega
  obtain ⟨E₁, c, e, E₂, hE, hle, hlt⟩ := Scanner.exists_event_at _ hlt
  have hfits : e.Fits c := hsplit.fits (c, e) (by rw [hE]; simp)
  have hat : (consumed E₁).length = pre.length := by
    by_contra hne
    have hacc : e.Accepted → False := fun ha => by
      have := hclear E₁ (c, e) E₂ hE ha (by omega)
      dsimp only at this
      omega
    cases e with
    | skipped => simp only [Event.Fits] at hfits; omega
    | rejected crc => simp only [Event.Fits] at hfits; omega
    | extended => exact hacc (Or.inl rfl)
    | frame => exact hacc (Or.inr rfl)
  obtain ⟨rfl, rfl⟩ := event_of_standard hraw hE hat
  exact ⟨E₁, E₂, hE, hat⟩

/-- How a stream is cut does not matter ; it is split into frames, dropped frames,
skipped bytes and a leftover ; a standard frame no accepted frame runs into is emitted at
its place ; and what `encode` built comes back. -/
theorem sbg_framing (ps : List (List UInt8)) :
    (∀ qs : List (List UInt8), qs.flatten = ps.flatten →
      ({} : SbgFramer).feedAll qs = ({} : SbgFramer).feedAll ps) ∧
    (∃ evs, Splits ps.flatten evs (({} : SbgFramer).feedAll ps) ∧
      ∀ pre raw post, ps.flatten = pre ++ raw ++ post → Standard raw →
        maxFrame ≤ raw.length + post.length →
        (∀ E₁ x E₂, evs = E₁ ++ x :: E₂ → x.2.Accepted → (consumed E₁).length < pre.length →
          (consumed E₁).length + x.1.length ≤ pre.length) →
        ∃ E₁ E₂, evs = E₁ ++ (raw, .frame) :: E₂ ∧ (consumed E₁).length = pre.length) ∧
    ∀ msgs : List (ℕ × ℕ × List UInt8),
      (∀ m ∈ msgs, m.1 ∈ wireClasses ∧ m.2.1 < 256 ∧ m.2.2.length ≤ maxPayload) →
      ∃ raws, msgs.mapM (fun m => encode m.1 m.2.1 m.2.2) = .ok raws ∧
        (ps.flatten = raws.flatten → ({} : SbgFramer).feedAll ps =
          (raws.map fun raw => ⟨.sbg, raw⟩,
            { buf := [], stats := { frames := raws.length } })) := by
  refine ⟨fun qs hqs => ?_, ⟨(scanner.scan ps.flatten).1, ?_, ?_⟩, fun msgs hmsgs => ?_⟩
  · rw [SbgFramer.fresh_feedAll, SbgFramer.fresh_feedAll, hqs]
  · rw [SbgFramer.fresh_feedAll]
    exact splits_scan ps.flatten
  · intro pre raw post hs hraw hlong hclear
    rw [hs] at hclear ⊢
    exact mem_of_standard hraw hlong hclear
  · obtain ⟨raws, hraws, hall⟩ := mapM_encode msgs hmsgs
    exact ⟨raws, hraws, feedAll_frames hall⟩

/-- A payload that is a sync pair, cut inside it. -/
theorem sbg_framing_sync_payload :
    ({} : SbgFramer).feedAll [[0xFF, 0x5A, 8, 0, 2, 0, 0xFF], [0x5A, 0x31, 0x1A, 0x33]] =
      ([⟨.sbg, [0xFF, 0x5A, 8, 0, 2, 0, 0xFF, 0x5A, 0x31, 0x1A, 0x33]⟩],
        { buf := [], stats := { frames := 1 } }) := by
  obtain ⟨raws, henc, hfeed⟩ :=
    (sbg_framing [[0xFF, 0x5A, 8, 0, 2, 0, 0xFF], [0x5A, 0x31, 0x1A, 0x33]]).2.2
      [(0, 8, [sync1, sync2])] (by decide)
  have hbytes : frameBytes 0 8 [sync1, sync2] =
      [0xFF, 0x5A, 8, 0, 2, 0, 0xFF, 0x5A, 0x31, 0x1A, 0x33] := by decide +kernel
  obtain rfl : raws = [frameBytes 0 8 [sync1, sync2]] := (Except.ok.inj henc).symm
  rw [hbytes] at hfeed
  exact hfeed rfl

end Sbg

end Mtrtk
