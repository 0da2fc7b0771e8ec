import Mtrtk.FrameScan

/-!
# What a valid frame is

`Frame.Valid` says byte by byte what the three wire formats ask of a frame : sync
bytes, a length that is the payload's, the checksum, and for NMEA the first CR LF at the
end. It names neither a buffer nor an attempt.

`coreHead_valid` : what the framer emits is valid. `Frame.Valid.coreHead` : a valid frame
at the head of the buffer is emitted once it is there in full, and `Frame.Valid.decided`
: a buffer that begins with some of its bytes is never decided otherwise, however few.
-/

namespace Mtrtk

/-! ## The three formats -/

/-- Class, id, length and payload between the sync bytes and their checksum. -/
def UbxValid (raw : List UInt8) : Prop :=
  ∃ cls ident lo hi payload, payload.length = lo.toNat + 256 * hi.toNat ∧
    payload.length ≤ ubxMaxPayload ∧
    raw = ubxSync1 :: ubxSync2 :: (cls :: ident :: lo :: hi :: payload) ++
      ubxChecksum (cls :: ident :: lo :: hi :: payload)

/-- A preamble, a 10-bit length, the payload, and the CRC-24Q of all of it. -/
def RtcmValid (raw : List UInt8) : Prop :=
  ∃ hi lo payload c₁ c₂ c₃, hi.toNat < 4 ∧ payload.length = 256 * hi.toNat + lo.toNat ∧
    crc24q (rtcmPreamble :: hi :: lo :: payload) =
      65536 * c₁.toNat + 256 * c₂.toNat + c₃.toNat ∧
    raw = rtcmPreamble :: hi :: lo :: payload ++ [c₁, c₂, c₃]

/-- A sentence up to its first CR LF, whose checksum field is the XOR of its body. -/
def NmeaValid (raw : List UInt8) : Prop :=
  ∃ body h₁ h₂, parseHexField [h₁, h₂] = some (nmeaChecksum body : ℤ) ∧
    raw = nmeaStart :: body ++ [0x2A, h₁, h₂, 0x0D, 0x0A] ∧
    findCrlf raw = some (body.length + 4) ∧ raw.length ≤ nmeaMaxLen + 2

/-- The frame is one of its protocol. The core framer knows no vendor frame. -/
def Frame.Valid (f : Frame) : Prop :=
  match f.proto with
  | .ubx => UbxValid f.raw
  | .rtcm3 => RtcmValid f.raw
  | .nmea => NmeaValid f.raw
  | .sbg => False
  | .vn => False

/-! ## Lengths and checksums as the source computes them -/

theorem or_shiftLeft_eq (lo hi : UInt8) :
    lo.toNat ||| (hi.toNat <<< 8) = lo.toNat + 256 * hi.toNat := by
  have := Nat.shiftLeft_add_eq_or_of_lt (b := lo.toNat) (i := 8) lo.toNat_lt hi.toNat
  rw [Nat.or_comm, ← this, Nat.shiftLeft_eq]
  omega

theorem ubxLength_cons (s₁ s₂ cls ident lo hi : UInt8) (rest : List UInt8) :
    ubxLength (s₁ :: s₂ :: cls :: ident :: lo :: hi :: rest) = lo.toNat + 256 * hi.toNat :=
  or_shiftLeft_eq lo hi

theorem and_fc_eq_zero_iff (hi : UInt8) : hi.toNat &&& 0xFC = 0 ↔ hi.toNat < 4 := by
  have key : ∀ k < 256, k &&& 0xFC = 0 ↔ k < 4 := by decide +kernel
  exact key _ hi.toNat_lt

theorem and_three_of_lt {hi : UInt8} (h : hi.toNat < 4) : hi.toNat &&& 0x03 = hi.toNat := by
  have := Nat.and_two_pow_sub_one_of_lt_two_pow (n := 2) h
  simpa using this

theorem rtcmLength_cons {d hi lo : UInt8} (rest : List UInt8) (h : hi.toNat < 4) :
    rtcmLength (d :: hi :: lo :: rest) = 256 * hi.toNat + lo.toNat := by
  have hb : rtcmLength (d :: hi :: lo :: rest) =
      ((hi.toNat &&& 0x03) <<< 8) ||| lo.toNat := rfl
  rw [hb, and_three_of_lt h, Nat.or_comm, or_shiftLeft_eq]
  omega

theorem crcField_eq (c₁ c₂ c₃ : UInt8) :
    (c₁.toNat <<< 16) ||| (c₂.toNat <<< 8) ||| c₃.toNat =
      65536 * c₁.toNat + 256 * c₂.toNat + c₃.toNat := by
  have hlow : (c₂.toNat <<< 8) ||| c₃.toNat = 256 * c₂.toNat + c₃.toNat := by
    rw [Nat.or_comm, or_shiftLeft_eq]
    omega
  have h₂ := c₂.toNat_lt
  have h₃ := c₃.toNat_lt
  have := Nat.shiftLeft_add_eq_or_of_lt (b := 256 * c₂.toNat + c₃.toNat) (i := 16)
    (by omega) c₁.toNat
  rw [Nat.or_assoc, hlow, ← this, Nat.shiftLeft_eq]
  omega

/-! ## Reading a frame off the buffer -/

theorem take_eq_slices {b : List UInt8} {i n : ℕ} (hi : i ≤ n) :
    b.take n = b.take i ++ slice b i n := by
  conv_lhs => rw [← List.take_append_drop i (b.take n), List.take_take, Nat.min_eq_left hi]
  rfl

theorem slice_eq_slices {b : List UInt8} {i j n : ℕ} (hij : i ≤ j) (hjn : j ≤ n) :
    slice b i n = slice b i j ++ slice b j n := by
  have h : b.take i ++ slice b i n = b.take i ++ (slice b i j ++ slice b j n) := by
    rw [← take_eq_slices (hij.trans hjn), ← List.append_assoc, ← take_eq_slices hij,
      ← take_eq_slices hjn]
  exact List.append_cancel_left h

theorem slice_singleton {b : List UInt8} {i : ℕ} {x : UInt8} (h : b[i]? = some x) :
    slice b i (i + 1) = [x] := by
  rw [slice, List.drop_take, Nat.add_sub_cancel_left]
  obtain ⟨hi, rfl⟩ := List.getElem?_eq_some_iff.1 h
  rw [List.take_one, List.head?_drop, h]
  rfl

theorem slice_pair {b : List UInt8} {i : ℕ} {x y : UInt8} (hx : b[i]? = some x)
    (hy : b[i + 1]? = some y) : slice b i (i + 2) = [x, y] := by
  rw [slice_eq_slices (j := i + 1) (by omega) (by omega), slice_singleton hx, slice_singleton hy]
  rfl

theorem exists_cons_six {b : List UInt8} (h : 6 ≤ b.length) :
    ∃ s₁ s₂ cls ident lo hi rest, b = s₁ :: s₂ :: cls :: ident :: lo :: hi :: rest := by
  match b, h with
  | s₁ :: s₂ :: cls :: ident :: lo :: hi :: rest, _ => exact ⟨s₁, s₂, cls, ident, lo, hi, rest, rfl⟩

theorem slice_header (s₁ s₂ cls ident lo hi : UInt8) (rest : List UInt8) (k : ℕ) :
    slice (s₁ :: s₂ :: cls :: ident :: lo :: hi :: rest) 2 (6 + k) =
      cls :: ident :: lo :: hi :: rest.take k := by
  rw [Nat.add_comm 6 k]
  rfl

theorem tryUbx_valid {b : List UInt8} {p : Proto} {n : ℕ} (h : tryUbx b = .emit p n)
    (h0 : byteAt b 0 = ubxSync1) : Frame.Valid ⟨p, b.take n⟩ := by
  obtain ⟨rfl, hn, hle, h1, hmax, hck⟩ := tryUbx_emit h
  obtain ⟨s₁, s₂, cls, ident, lo, hi, rest, rfl⟩ := exists_cons_six (b := b) (by omega)
  obtain rfl : s₁ = ubxSync1 := h0
  obtain rfl : s₂ = ubxSync2 := h1
  rw [ubxLength_cons] at hn hmax
  simp only [List.length_cons] at hle
  refine ⟨cls, ident, lo, hi, rest.take (lo.toNat + 256 * hi.toNat), ?_, ?_, ?_⟩
  · rw [List.length_take]
    omega
  · rw [List.length_take]
    omega
  · have hn2 : n - 2 = 6 + (lo.toNat + 256 * hi.toNat) := by omega
    rw [hn2, slice_header] at hck
    rw [← hck, take_eq_slices (i := 2) (by omega),
      slice_eq_slices (j := 6 + (lo.toNat + 256 * hi.toNat)) (by omega) (by omega), slice_header]
    rfl

theorem UbxValid.tryUbx {raw : List UInt8} (h : UbxValid raw) :
    tryUbx raw = .emit .ubx raw.length := by
  obtain ⟨cls, ident, lo, hi, payload, hlen, hmax, rfl⟩ := h
  have hck : ∀ data, (ubxChecksum data).length = 2 := fun data => rfl
  set raw := ubxSync1 :: ubxSync2 :: (cls :: ident :: lo :: hi :: payload) ++
    ubxChecksum (cls :: ident :: lo :: hi :: payload) with hraw
  have hL : ubxLength raw = payload.length := by rw [hlen]; exact ubxLength_cons _ _ _ _ _ _ _
  have htotal : raw.length = 6 + payload.length + 2 := by simp [hraw, hck]; omega
  have h1 : byteAt raw 1 = ubxSync2 := rfl
  have hbody : slice raw 2 (6 + payload.length) = cls :: ident :: lo :: hi :: payload := by
    rw [hraw, List.cons_append, List.cons_append, List.cons_append, List.cons_append,
      List.cons_append, List.cons_append, slice_header, List.take_left]
  have htail : slice raw (6 + payload.length) (6 + payload.length + 2) =
      ubxChecksum (cls :: ident :: lo :: hi :: payload) := by
    rw [slice, ← htotal, List.take_length, hraw, Nat.add_comm]
    simp
  unfold Mtrtk.tryUbx
  simp only [hL, h1, show 6 + payload.length + 2 - 2 = 6 + payload.length by omega, hbody, htail]
  rw [if_neg (by omega), if_neg (by simp), if_neg (by omega), if_neg (by omega), if_neg (by omega),
    if_neg (by simp), htotal]

theorem exists_take_three {l : List UInt8} {n : ℕ} (h : n + 3 ≤ l.length) :
    ∃ c₁ c₂ c₃, (l.drop n).take 3 = [c₁, c₂, c₃] := by
  have hlen : ((l.drop n).take 3).length = 3 := by
    rw [List.length_take, List.length_drop]
    omega
  exact List.length_eq_three.1 hlen

theorem tryRtcm_valid {b : List UInt8} {p : Proto} {n : ℕ} (h : tryRtcm b = .emit p n)
    (h0 : byteAt b 0 = rtcmPreamble) : Frame.Valid ⟨p, b.take n⟩ := by
  obtain ⟨rfl, hn, hle, hfc, hck⟩ := tryRtcm_emit h
  obtain ⟨d, hi, lo, rest, rfl⟩ : ∃ d hi lo rest, b = d :: hi :: lo :: rest := by
    match b, hn, hle with
    | d :: hi :: lo :: rest, _, _ => exact ⟨d, hi, lo, rest, rfl⟩
    | [], _, hle => simp at hle; omega
    | [_], _, hle => simp at hle; omega
    | [_, _], _, hle => simp at hle; omega
  obtain rfl : d = rtcmPreamble := h0
  have hhi : hi.toNat < 4 := (and_fc_eq_zero_iff hi).1 hfc
  rw [rtcmLength_cons rest hhi] at hn
  set L := 256 * hi.toNat + lo.toNat with hL
  simp only [List.length_cons] at hle
  obtain ⟨c₁, c₂, c₃, htail⟩ := exists_take_three (n := L) (l := rest) (by omega)
  have htake : rest.take (L + 3) = rest.take L ++ [c₁, c₂, c₃] := by
    rw [List.take_add, htail]
  have hraw : (rtcmPreamble :: hi :: lo :: rest).take n =
      rtcmPreamble :: hi :: lo :: rest.take L ++ [c₁, c₂, c₃] := by
    rw [show n = L + 3 + 3 by omega]
    simp only [List.take_succ_cons, htake, List.cons_append]
  have hlen : (rest.take L).length = L := by
    rw [List.length_take]
    omega
  refine ⟨hi, lo, rest.take L, c₁, c₂, c₃, hhi, hlen, ?_, hraw⟩
  have hbyte : ∀ i x, i < 3 → [c₁, c₂, c₃][i]? = some x →
      byteAt (rtcmPreamble :: hi :: lo :: rest) (n - 3 + i) = x := by
    intro i x hi3 hx
    have hget : ((rtcmPreamble :: hi :: lo :: rest).take n)[n - 3 + i]? = some x := by
      rw [hraw, List.getElem?_append_right (by simp only [List.length_cons, hlen]; omega)]
      simp only [List.length_cons, hlen]
      rwa [show n - 3 + i - (L + 1 + 1 + 1) = i by omega]
    rw [List.getElem?_take_of_lt (by omega)] at hget
    simp [byteAt, hget]
  have h₁ := hbyte 0 c₁ (by omega) rfl
  have h₂ := hbyte 1 c₂ (by omega) rfl
  have h₃ := hbyte 2 c₃ (by omega) rfl
  rw [Nat.add_zero] at h₁
  rw [show n - 3 + 1 = n - 2 by omega] at h₂
  rw [show n - 3 + 2 = n - 1 by omega] at h₃
  rw [h₁, h₂, h₃, crcField_eq, show n - 3 = L + 3 by omega] at hck
  exact hck

theorem RtcmValid.tryRtcm {raw : List UInt8} (h : RtcmValid raw) :
    tryRtcm raw = .emit .rtcm3 raw.length := by
  obtain ⟨hi, lo, payload, c₁, c₂, c₃, hhi, hlen, hcrc, rfl⟩ := h
  set raw := rtcmPreamble :: hi :: lo :: payload ++ [c₁, c₂, c₃] with hraw
  have hL : rtcmLength raw = payload.length := by rw [hlen]; exact rtcmLength_cons _ hhi
  have htotal : raw.length = 3 + payload.length + 3 := by simp [hraw]; omega
  have h1 : (byteAt raw 1).toNat &&& 0xFC = 0 := (and_fc_eq_zero_iff hi).2 hhi
  have hbyte : ∀ i, byteAt raw (3 + payload.length + i) = [c₁, c₂, c₃].getD i 0 := by
    intro i
    have hpre : (rtcmPreamble :: hi :: lo :: payload).length = 3 + payload.length :=
      Nat.add_comm _ 3
    rw [byteAt, List.getD_eq_getElem?_getD, List.getD_eq_getElem?_getD, hraw,
      List.getElem?_append_right (by omega), hpre, Nat.add_sub_cancel_left]
  have hhead : raw.take (3 + payload.length) = rtcmPreamble :: hi :: lo :: payload := by
    rw [hraw, Nat.add_comm]
    exact List.take_left' rfl
  unfold Mtrtk.tryRtcm
  simp only [hL, hhead, show 3 + payload.length + 3 - 3 = 3 + payload.length + 0 by omega,
    show 3 + payload.length + 3 - 2 = 3 + payload.length + 1 by omega,
    show 3 + payload.length + 3 - 1 = 3 + payload.length + 2 by omega, hbyte]
  rw [if_neg (by omega), if_neg (not_not.2 h1), if_neg (by omega), htotal]
  refine if_neg (not_not.2 ?_)
  rw [hcrc]
  exact (crcField_eq c₁ c₂ c₃).symm

/-! ## Sentences -/

theorem rfindStar_getElem : ∀ {l : List UInt8} {i : ℕ}, rfindStar l = some i → l[i]? = some 0x2A
  | a :: rest, i, h => by
    rw [rfindStar] at h
    cases hr : rfindStar rest with
    | some j =>
      rw [hr] at h
      obtain rfl : j + 1 = i := by simpa using h
      simpa using rfindStar_getElem hr
    | none =>
      simp only [hr] at h
      split_ifs at h with ha
      obtain rfl : 0 = i := by simpa using h
      simp [ha]
  | [], i, h => by simp [rfindStar] at h

theorem rfindStar_field {h₁ h₂ : UInt8} (hne₁ : h₁ ≠ 0x2A) (hne₂ : h₂ ≠ 0x2A) :
    ∀ l : List UInt8, rfindStar (l ++ [0x2A, h₁, h₂]) = some l.length
  | [] => by simp [rfindStar, hne₁, hne₂]
  | a :: l => by simp [rfindStar, rfindStar_field hne₁ hne₂ l]

theorem parseHexField_some {l : List UInt8} {v : ℤ} (h : parseHexField l = some v) :
    ∃ h₁ h₂, l = [h₁, h₂] ∧ h₁ ≠ 0x2A ∧ h₂ ≠ 0x2A := by
  match l, h with
  | [h₁, h₂], h =>
    refine ⟨h₁, h₂, rfl, ?_, ?_⟩ <;> rintro rfl
    · have hstar : hexDigit 0x2A = none := rfl
      cases hb : hexDigit h₂ <;> simp [parseHexField, hstar, hb, isSpace] at h
    · have hstar : hexDigit 0x2A = none := rfl
      cases ha : hexDigit h₁ <;> simp [parseHexField, hstar, ha, isSpace] at h
  | [], h => simp [parseHexField] at h
  | [_], h => simp [parseHexField] at h
  | _ :: _ :: _ :: _, h => simp [parseHexField] at h

theorem tryNmea_valid {b : List UInt8} {p : Proto} {n : ℕ} (h : tryNmea b = .emit p n)
    (h0 : byteAt b 0 = nmeaStart) : Frame.Valid ⟨p, b.take n⟩ := by
  obtain ⟨stop, he, rfl, rfl, hs⟩ := tryNmea_emit h
  have hle := nmeaEnd_le he
  obtain ⟨hcr, hlf⟩ := nmeaEnd_getElem he
  unfold nmeaSentence at hs
  split at hs
  · simp at hs
  next star hstar =>
  split_ifs at hs with h3
  split at hs
  · simp at hs
  next given hgiven =>
  split_ifs at hs with hsum
  have hget := rfindStar_getElem hstar
  have hlt : star < stop := by
    have := (List.getElem?_eq_some_iff.1 hget).1
    rw [List.length_take] at this
    omega
  rw [List.getElem?_take_of_lt hlt] at hget
  have hpos : 1 ≤ star := by
    by_contra hz
    obtain rfl : star = 0 := by omega
    rw [byteAt, List.getD_eq_getElem?_getD, hget] at h0
    exact absurd h0 (by decide)
  obtain ⟨h₁, h₂, hfield, -, -⟩ := parseHexField_some hgiven
  have hfirst : slice b 0 1 = [nmeaStart] := by
    refine slice_singleton ?_
    have hb : 0 < b.length := by omega
    rw [← h0, byteAt, List.getD_eq_getElem?_getD, List.getElem?_eq_getElem hb]
    rfl
  have hbody : (slice b 1 star).length = star - 1 := by
    rw [slice, List.length_drop, List.length_take]
    omega
  have hraw : b.take (stop + 2) = nmeaStart :: slice b 1 star ++ [0x2A, h₁, h₂, 0x0D, 0x0A] := by
    have hall : b.take (stop + 2) = slice b 0 (stop + 2) := rfl
    rw [hall, slice_eq_slices (j := 1) (by omega) (by omega), hfirst,
      slice_eq_slices (j := star) hpos (by omega),
      slice_eq_slices (i := star) (j := star + 1) (by omega) (by omega), slice_singleton hget,
      slice_eq_slices (i := star + 1) (j := stop) (by omega) (by omega), hfield, slice_pair hcr hlf]
    simp
  refine ⟨slice b 1 star, h₁, h₂, ?_, hraw, ?_, ?_⟩
  · rw [← hfield, hgiven, not_not.1 hsum]
  · rw [hbody, show star - 1 + 4 = stop by omega]
    rw [nmeaEnd] at he
    refine findCrlf_of_append (c := (b.take (nmeaMaxLen + 2)).drop (stop + 2)) ?_ ?_
    · have hcut : (b.take (nmeaMaxLen + 2)).take (stop + 2) = b.take (stop + 2) := by
        rw [List.take_take, Nat.min_eq_left (by omega)]
      rw [← hcut, List.take_append_drop, he]
    · rw [List.length_take]
      omega
  · rw [List.length_take]
    omega

theorem NmeaValid.tryNmea {raw : List UInt8} (h : NmeaValid raw) :
    tryNmea raw = .emit .nmea raw.length := by
  obtain ⟨body, h₁, h₂, hfield, hraw, hend, hlen⟩ := h
  obtain ⟨_, _, heq, hne₁, hne₂⟩ := parseHexField_some hfield
  obtain ⟨rfl, rfl⟩ : h₁ = _ ∧ h₂ = _ := by simpa using heq
  have htotal : raw.length = body.length + 4 + 2 := by simp [hraw]
  have hend' : nmeaEnd raw = some (body.length + 4) := by
    rw [nmeaEnd, List.take_of_length_le hlen, hend]
  have hstop : raw.take (body.length + 4) = nmeaStart :: body ++ [0x2A, h₁, h₂] := by
    rw [hraw, show nmeaStart :: body ++ [0x2A, h₁, h₂, 0x0D, 0x0A] =
      (nmeaStart :: body ++ [0x2A, h₁, h₂]) ++ [0x0D, 0x0A] by simp]
    exact List.take_left' (by simp)
  have hbody : slice raw 1 (body.length + 1) = body := by
    rw [slice, hraw, List.take_append_of_le_length (by simp), List.take_of_length_le (by simp)]
    rfl
  have hdigits : slice raw (body.length + 1 + 1) (body.length + 4) = [h₁, h₂] := by
    rw [slice, hstop, show nmeaStart :: body ++ [0x2A, h₁, h₂] =
      (nmeaStart :: body ++ [0x2A]) ++ [h₁, h₂] by simp]
    exact List.drop_left' (by simp)
  have hstar : rfindStar (raw.take (body.length + 4)) = some (body.length + 1) := by
    rw [hstop, rfindStar_field hne₁ hne₂]
    rfl
  rw [tryNmea_of_some hend', nmeaSentence, hstar]
  simp only [show body.length + 4 - (body.length + 1) = 3 by omega, hdigits, hfield, hbody]
  rw [if_neg (by simp), if_neg (by simp), htotal]

/-! ## The framer and the formats -/

/-- What the framer emits is a valid frame. -/
theorem coreHead_valid {b : List UInt8} {n : ℕ} {p : Proto}
    (h : coreHead b = some (n, .frame p)) : Frame.Valid ⟨p, b.take n⟩ := by
  obtain ⟨-, ⟨-, -, he⟩ | ⟨ck, -, -, -, he⟩ | ⟨q, hs, ha, he⟩⟩ := coreHead_cases h
  · simp at he
  · simp at he
  obtain rfl : p = q := by simpa using he
  rw [attempt] at ha
  split_ifs at ha with hu hr
  · exact tryUbx_valid ha hu
  · exact tryRtcm_valid ha hr
  · exact tryNmea_valid ha (by simpa [isSync, hu, hr] using hs)

/-- A valid frame is emitted from a buffer that is just the frame. -/
theorem Frame.Valid.coreHead {f : Frame} (h : f.Valid) :
    coreHead f.raw = some (f.raw.length, .frame f.proto) := by
  obtain ⟨proto, raw⟩ := f
  cases proto with
  | ubx =>
    have h0 : byteAt raw 0 = ubxSync1 := by
      obtain ⟨cls, ident, lo, hi, payload, -, -, hraw⟩ := h
      simp [byteAt, show raw = _ from hraw]
    refine coreHead_emit (by rw [h0]; rfl) ?_
    rw [attempt, if_pos h0]
    exact UbxValid.tryUbx h
  | rtcm3 =>
    have h0 : byteAt raw 0 = rtcmPreamble := by
      obtain ⟨hi, lo, payload, c₁, c₂, c₃, -, -, -, hraw⟩ := h
      simp [byteAt, show raw = _ from hraw]
    refine coreHead_emit (by rw [h0]; rfl) ?_
    rw [attempt, if_neg (by rw [h0]; decide), if_pos h0]
    exact RtcmValid.tryRtcm h
  | nmea =>
    have h0 : byteAt raw 0 = nmeaStart := by
      obtain ⟨body, h₁, h₂, -, hraw, -⟩ := h
      simp [byteAt, show raw = _ from hraw]
    refine coreHead_emit (by rw [h0]; rfl) ?_
    rw [attempt, if_neg (by rw [h0]; decide), if_neg (by rw [h0]; decide)]
    exact NmeaValid.tryNmea h
  | sbg => exact h.elim
  | vn => exact h.elim

theorem Frame.Valid.pos {f : Frame} (h : f.Valid) : 0 < f.raw.length := coreScanner.pos h.coreHead

theorem Frame.Valid.isSync_head {f : Frame} (h : f.Valid) : isSync (byteAt f.raw 0) = true := by
  obtain ⟨-, ⟨-, -, he⟩ | ⟨ck, hsync, -⟩ | ⟨p, hsync, -⟩⟩ := coreHead_cases h.coreHead
  · cases he
  · exact hsync
  · exact hsync

theorem Frame.Valid.nmea_head {f : Frame} (h : f.Valid) (hnmea : f.proto = .nmea) :
    byteAt f.raw 0 = nmeaStart := by
  obtain ⟨proto, raw⟩ := f
  subst hnmea
  obtain ⟨body, h₁, h₂, -, hraw, -⟩ := h
  simp [byteAt, show raw = _ from hraw]

/-- A buffer that begins like a valid frame is decided only once the frame is there, and
then it is emitted. A sentence has to be no longer than `NMEA_MAX_LEN` for it. -/
theorem Frame.Valid.decided {f : Frame} (h : f.Valid)
    (hshort : f.proto = .nmea → f.raw.length ≤ nmeaMaxLen) {b v w : List UInt8}
    (hb : b ++ v = f.raw ++ w) {n : ℕ} {e : FramerEvent} (hd : Mtrtk.coreHead b = some (n, e)) :
    n = f.raw.length ∧ e = .frame f.proto := by
  have hwhole := h.coreHead
  rcases List.append_eq_append_iff.1 hb with ⟨x, hx, -⟩ | ⟨x, hx, -⟩
  · -- the buffer is within the frame, so deciding it would decide the frame
    have hst : ¬Stump b := by
      intro hst
      have h0 : byteAt f.raw 0 = nmeaStart := by rw [hx, hst.byteAt_append]
      obtain ⟨-, ⟨-, -, he⟩ | ⟨ck, -, -, -, he⟩ | ⟨q, -, ha, he⟩⟩ := coreHead_cases hwhole
      · simp at he
      · simp at he
      rw [attempt_nmea h0] at ha
      obtain ⟨stop, hend, hq, hn, -⟩ := tryNmea_emit ha
      obtain rfl : x = [] := by
        have := hshort (by simpa [hq] using he)
        have := hst.2.1
        have := congrArg List.length hx
        rw [List.length_append] at this
        exact List.length_eq_zero_iff.1 (by omega)
      rw [hx, List.append_nil, hst.2.2.2] at hend
      simp at hend
    rw [hx, coreHead_append x hd hst] at hwhole
    simpa [← hx] using hwhole
  · rw [hx, coreHead_append x hwhole fun hst => by simp [hst.coreHead] at hwhole] at hd
    simpa [eq_comm] using hd

end Mtrtk
