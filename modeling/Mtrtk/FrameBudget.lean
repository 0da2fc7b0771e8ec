import Mtrtk.BinaryOutput
import Mtrtk.Tiles
import Mtrtk.VnFields

/-!
# The size of a VectorNav frame

`rover/drivers/vectornav/config.py` adds up what a frame will take from the sizes of the fields that
are asked for (`frame_bytes`), before there is one ; `fields.py` finds the length of one that has
come, field by field (`walk`).

`IsFrame` is a frame of given groups, put together the way the unit does. Of such a frame `walk`
finds every part where the one before it ends (`walk_frame`), whatever its fields hold, and the sum
of the parts is what `frameBytes` adds up (`frame_bytes_agrees`).
-/

namespace Mtrtk

namespace Vn

/-- `SATINFO`. -/
def satinfo : ℕ := 1 <<< satinfoBit

/-- The bits of a field mask. -/
def maskBits (mask : ℕ) : List ℕ := (List.range 15).filter fun bit => mask &&& (1 <<< bit) ≠ 0

/-- What the GPS group has besides the sizes of its fields. -/
def gpsTotal (gpsExt : Option ℕ) (sats meas mask : ℕ) : ℕ :=
  let records := if mask &&& satinfo ≠ 0 then satinfoRecord * sats else 0
  match gpsExt with
  | none => records
  | some ext =>
    if ext = 0 then records
    else records + 2 + if ext &&& extRawmeas ≠ 0 then rawmeasHeader + rawmeasRecord * meas else 0

/-- What a group adds to `total`, `none` for the `KeyError` of a name that is not one. -/
def groupTotal (gpsExt : Option ℕ) (sats meas : ℕ) (a : Str × ℕ) : Option ℕ :=
  (groupBits.get a.1).map fun g =>
    2 + ((maskBits a.2).map fun bit => (fieldSizes.getD g []).getD bit 0).sum +
      if a.1 = "gps".toList then gpsTotal gpsExt sats meas a.2 else 0

/-- `frame_bytes`. -/
def frameBytes (fields : Dict Str ℕ) (gpsExt : Option ℕ) (sats meas : ℕ) : Option ℕ :=
  fields.foldlM (fun total a => (groupTotal gpsExt sats meas a).map (total + ·)) (1 + 1 + 2)

/-- `field_layout`, the error being the text of the `ValueError`. -/
def fieldLayout (buf : List UInt8) : Except String (List Field) :=
  match walk.on buf with
  | .error e => .error e
  | .ok none => .error "incomplete VN binary frame"
  | .ok (some walked) => .ok walked.1

/-! ## A frame -/

/-- Two bytes, the low one first. -/
def wordBytes (n : ℕ) : List UInt8 := [UInt8.ofNat n, UInt8.ofNat (n / 256)]

/-- The words of a group in the header. -/
def headerBytes (h : Header) : List UInt8 :=
  if h.ext = 0 then wordBytes h.mask else wordBytes (h.mask + extFlag) ++ wordBytes h.ext

/-- The size of a field in a frame with so many satellites. -/
def fieldLength (sats g bit : ℕ) : ℕ :=
  if isGps g ∧ bit = satinfoBit then satinfoHeader + satinfoRecord * sats
  else (fieldSizes.getD g []).getD bit 0

/-- The bytes of a field. That of the satellites begins with their number. -/
structure IsField (sats g bit : ℕ) (bytes : List UInt8) : Prop where
  length : bytes.length = fieldLength sats g bit
  count : isGps g = true → bit = satinfoBit → bytes[0]?.map UInt8.toNat = some sats

/-- The bytes of the raw measurements, with their number in the header. -/
structure IsRawmeas (meas : ℕ) (bytes : List UInt8) : Prop where
  length : bytes.length = rawmeasHeader + rawmeasRecord * meas
  count : bytes[rawmeasCountOffset]?.map UInt8.toNat = some meas

/-- The payload of a group : its fields in the order of their bits, and then those of the
extension. -/
def IsGroup (sats meas : ℕ) (h : Header) (bytes : List UInt8) : Prop :=
  ∃ (fields : List (List UInt8)) (rawmeas : List UInt8), bytes = fields.flatten ++ rawmeas ∧
    List.Forall₂ (IsField sats h.group) (maskBits h.mask) fields ∧
      if h.ext &&& extRawmeas ≠ 0 then IsRawmeas meas rawmeas else rawmeas = []

/-- A binary frame of some groups, of which there has to be one. -/
structure IsFrame (headers : List Header) (sats meas : ℕ) (frame : List UInt8) : Prop where
  some : headers ≠ []
  parts : ∃ (payload : List (List UInt8)) (crc : List UInt8),
    frame = [0xFA, UInt8.ofNat (groupSet (headers.map Header.group))] ++
        headers.flatMap headerBytes ++ payload.flatten ++ crc ∧
      List.Forall₂ (IsGroup sats meas) headers payload ∧ crc.length = 2

/-- A group of a field map, as a frame has it. -/
def headerOf (gpsExt : Option ℕ) (a : Str × ℕ) : Header :=
  ⟨groupBit a.1, a.2, if a.1 = "gps".toList then gpsExt.getD 0 else 0⟩

/-- The groups of a field map in the order of their bits. -/
def headersOf (fields : Dict Str ℕ) (gpsExt : Option ℕ) : List Header :=
  Keyed.sortBy Header.group (fields.map (headerOf gpsExt))

/-- Where a field begins and ends. -/
def Field.span (f : Field) : ℕ × ℕ := (f.offset, f.offset + f.size)

/-! ## Reading it -/

/-- A group `walk` takes. -/
structure Header.Valid (h : Header) : Prop where
  group : h.group < 7
  mask : h.mask < 2 ^ 15
  some : h.mask ≠ 0
  sized : ∀ bit ∈ maskBits h.mask, (fieldSizes.getD h.group []).getD bit 0 ≠ 0
  ext : h.ext = 0 ∨ h.ext = extRawmeas ∧ isGps h.group = true

variable {buf rest bytes : List UInt8} {pos : ℕ}

theorem byte_on (i : ℕ) : (byte i).on buf = .ok (buf[i]?.map UInt8.toNat) := by
  rw [byte, Reading.bind_on, Reading.readAt_on]
  cases buf[i]? <;> rfl

/-- The byte that is `i` further on. -/
theorem byte_on_drop (h : buf.drop pos = bytes ++ rest) {i n : ℕ}
    (hi : bytes[i]?.map UInt8.toNat = some n) : (byte (pos + i)).on buf = .ok (some n) := by
  obtain ⟨b, hb, rfl⟩ := Option.map_eq_some_iff.1 hi
  have hbuf : buf[pos + i]? = some b := by
    rw [← List.getElem?_drop, h, List.getElem?_append_left (List.getElem?_eq_some_iff.1 hb).1, hb]
  rw [byte_on, hbuf]
  rfl

theorem drop_add (h : buf.drop pos = bytes ++ rest) : buf.drop (pos + bytes.length) = rest := by
  rw [← List.drop_drop, h, List.drop_left]

theorem word_on {n : ℕ} (hn : n < 65536) (h : buf.drop pos = wordBytes n ++ rest) :
    (word pos).on buf = .ok (some n) := by
  have hlo : (byte pos).on buf = .ok (some (n % 256)) :=
    byte_on_drop h (i := 0) (congrArg some UInt8.toNat_ofNat')
  have hhi : (byte (pos + 1)).on buf = .ok (some (n / 256)) := by
    refine byte_on_drop h (congrArg some (UInt8.toNat_ofNat'.trans (Nat.mod_eq_of_lt ?_)))
    omega
  rw [word, Reading.bind_on_some hlo, Reading.bind_on_some hhi, Reading.pure_on,
    Nat.mod_add_div]

/-! ### The headers -/

variable {mask g groups sats meas : ℕ} {h : Header}

theorem land_fieldBits (hmask : mask < 2 ^ 15) : mask &&& fieldBits = mask :=
  (Nat.and_two_pow_sub_one_eq_mod mask 15).trans (Nat.mod_eq_of_lt hmask)

theorem land_flag (hmask : mask < 2 ^ 15) : mask &&& extFlag = 0 := by
  have hflag : extFlag = 2 ^ 15 := rfl
  rw [hflag, Nat.and_two_pow, Nat.testBit_lt_two_pow hmask, Bool.toNat_false, Nat.zero_mul]

theorem add_land_fieldBits (hmask : mask < 2 ^ 15) : (mask + extFlag) &&& fieldBits = mask := by
  have hflag : extFlag = 2 ^ 15 := rfl
  have hmod := Nat.and_two_pow_sub_one_eq_mod (mask + extFlag) 15
  rw [hflag, Nat.add_mod_right, Nat.mod_eq_of_lt hmask] at hmod
  exact hmod

theorem add_land_flag (hmask : mask < 2 ^ 15) : (mask + extFlag) &&& extFlag ≠ 0 := by
  have hflag : extFlag = 2 ^ 15 := rfl
  rw [hflag, Nat.and_two_pow, Nat.add_comm, Nat.testBit_two_pow_add_eq,
    Nat.testBit_lt_two_pow hmask]
  decide

theorem land_shiftLeft_eq_zero : groups &&& (1 <<< g) = 0 ↔ ¬groups.testBit g = true := by
  rw [Nat.one_shiftLeft, Nat.and_two_pow]
  cases groups.testBit g <;> simp

/-- A group of the header. -/
theorem walkHeaders_mem (hv : h.Valid) (hbuf : buf.drop pos = headerBytes h ++ rest)
    (hset : groups.testBit h.group = true) (gs : List ℕ) :
    (walkHeaders groups (h.group :: gs) pos).on buf =
      (walkHeaders groups gs (pos + (headerBytes h).length) >>= fun r =>
        pure (h :: r.1, r.2)).on buf := by
  have hone : ¬groups &&& (1 <<< h.group) = 0 := fun hzero => land_shiftLeft_eq_zero.1 hzero hset
  have hlt := hv.mask
  rw [walkHeaders, if_neg hone]
  unfold headerBytes at hbuf ⊢
  rcases hv.ext with hext | ⟨hext, hgps⟩
  · rw [if_pos hext] at hbuf ⊢
    rw [Reading.bind_on_some (word_on (by omega) hbuf), walkExt,
      if_neg (not_not.2 (land_flag hv.mask)), Reading.bind_on_some (Reading.pure_on _ _),
      land_fieldBits hv.mask]
    dsimp only
    rw [if_neg fun hno => hv.some hno.1, ← hext]
    rfl
  · have hne : ¬h.ext = 0 := by rw [hext]; decide
    have hext16 : h.ext < 65536 := by rw [hext]; decide
    have hknown : ¬h.ext &&& extUnknown ≠ 0 := by rw [hext]; decide
    rw [if_neg hne, List.append_assoc] at hbuf
    have hflag : extFlag = 32768 := rfl
    have hword : (word (pos + 2)).on buf = .ok (some h.ext) := word_on hext16 (drop_add hbuf)
    have hwalk : (walkExt h.group (h.mask + extFlag) (pos + 2)).on buf =
        .ok (some (h.ext, pos + 2 + 2)) := by
      rw [walkExt, if_pos (add_land_flag hv.mask), if_pos hgps, Reading.bind_on_some hword,
        if_neg hknown]
      rfl
    rw [if_neg hne, Reading.bind_on_some (word_on (by omega) hbuf), Reading.bind_on_some hwalk,
      add_land_fieldBits hv.mask]
    dsimp only
    rw [if_neg fun hno => hne hno.2]
    rfl

theorem walkHeaders_on : ∀ (gs : List ℕ) (headers : List Header) {pos : ℕ},
    Upcoming Header.group groups gs headers → (∀ h ∈ headers, h.Valid) →
    buf.drop pos = headers.flatMap headerBytes ++ rest →
      (walkHeaders groups gs pos).on buf =
        .ok (some (headers, pos + (headers.flatMap headerBytes).length))
  | [], headers, pos, hcoming, _, _ => by
    obtain rfl : headers = [] := hcoming.eq_nil
    rfl
  | g :: gs, headers, pos, hcoming, hall, hbuf => by
    by_cases hg : groups.testBit g = true
    · obtain ⟨h, headers, rfl, rfl, hnext⟩ := hcoming.next hg
      obtain ⟨hv, hall⟩ := List.forall_mem_cons.1 hall
      rw [List.flatMap_cons, List.append_assoc] at hbuf
      have hrest := walkHeaders_on gs headers hnext hall (drop_add hbuf)
      rw [walkHeaders_mem hv hbuf hg, Reading.bind_on_some hrest, Reading.pure_on,
        List.flatMap_cons, List.length_append, Nat.add_assoc]
    · have hskip : groups &&& (1 <<< g) = 0 := land_shiftLeft_eq_zero.2 hg
      rw [walkHeaders, if_pos hskip]
      exact walkHeaders_on gs headers (hcoming.skip hg) hall hbuf

/-! ### The payload -/

theorem fieldSize_on {bit : ℕ} (hsats : sats ≤ maxSats)
    (hsized : (fieldSizes.getD g []).getD bit 0 ≠ 0) (hfield : IsField sats g bit bytes)
    (hbuf : buf.drop pos = bytes ++ rest) :
    (fieldSize g bit ((fieldSizes.getD g []).getD bit 0) pos).on buf =
      .ok (some bytes.length) := by
  rw [fieldSize, if_neg hsized, hfield.length, fieldLength]
  by_cases hsat : isGps g = true ∧ bit = satinfoBit
  · have hcount : (byte pos).on buf = .ok (some sats) :=
      byte_on_drop hbuf (i := 0) (hfield.count hsat.1 hsat.2)
    rw [if_pos hsat, if_pos hsat, Reading.bind_on_some hcount, if_neg hsats.not_gt]
    rfl
  · rw [if_neg hsat, if_neg hsat]
    rfl

theorem fieldLength_pos {bit : ℕ} (hsized : (fieldSizes.getD g []).getD bit 0 ≠ 0) :
    0 < fieldLength sats g bit := by
  unfold fieldLength
  split
  · exact Nat.lt_add_right _ (by decide)
  · exact Nat.pos_of_ne_zero hsized

/-- The fields of a group, wherever they are. -/
theorem walkFields_on (hsats : sats ≤ maxSats) : ∀ (bits : List ℕ) (fields : List (List UInt8))
    {pos : ℕ}, (∀ bit ∈ bits.filter fun bit => mask &&& (1 <<< bit) ≠ 0,
      (fieldSizes.getD g []).getD bit 0 ≠ 0) →
    List.Forall₂ (IsField sats g) (bits.filter fun bit => mask &&& (1 <<< bit) ≠ 0) fields →
    buf.drop pos = fields.flatten ++ rest →
      ∃ layout, (walkFields g mask bits pos).on buf =
          .ok (some (layout, pos + fields.flatten.length)) ∧
        Tiles (pos + fields.flatten.length) pos (layout.map Field.span)
  | [], fields, pos, _, hfields, _ => by
    obtain rfl : fields = [] := List.forall₂_nil_left_iff.1 hfields
    exact ⟨[], rfl, .nil⟩
  | bit :: bits, fields, pos, hsized, hfields, hbuf => by
    by_cases hbit : mask &&& (1 <<< bit) = 0
    · rw [List.filter_cons_of_neg (by simpa using hbit)] at hsized hfields
      rw [walkFields, if_pos hbit]
      exact walkFields_on hsats bits fields hsized hfields hbuf
    · rw [List.filter_cons_of_pos (by simpa using hbit)] at hsized hfields
      obtain ⟨bytes, fields, hfield, hrest, rfl⟩ := List.forall₂_cons_left_iff.1 hfields
      obtain ⟨hsize, hsized⟩ := List.forall_mem_cons.1 hsized
      rw [List.flatten_cons, List.append_assoc] at hbuf
      obtain ⟨layout, hwalk, htiles⟩ := walkFields_on hsats bits fields hsized hrest (drop_add hbuf)
      rw [List.flatten_cons, List.length_append, ← Nat.add_assoc]
      have hpos : 0 < bytes.length := hfield.length.symm ▸ fieldLength_pos hsize
      refine ⟨⟨g, bit, pos, bytes.length⟩ :: layout, ?_,
        .cons (Nat.lt_add_of_pos_right hpos) htiles⟩
      rw [walkFields, if_neg hbit, Reading.bind_on_some (fieldSize_on hsats hsize hfield hbuf),
        Reading.bind_on_some hwalk]
      rfl

theorem walkRawmeas_on {ext : ℕ} (hmeas : meas ≤ maxMeas)
    (hraw : if ext &&& extRawmeas ≠ 0 then IsRawmeas meas bytes else bytes = [])
    (hbuf : buf.drop pos = bytes ++ rest) :
    ∃ layout, (walkRawmeas g ext pos).on buf = .ok (some (layout, pos + bytes.length)) ∧
      Tiles (pos + bytes.length) pos (layout.map Field.span) := by
  rw [walkRawmeas]
  split at hraw
  case isTrue hext =>
    rw [if_pos hext, Reading.bind_on_some (byte_on_drop hbuf hraw.count), if_neg hmeas.not_gt,
      hraw.length]
    have hsome : 0 < rawmeasHeader + rawmeasRecord * meas := Nat.lt_add_right _ (by decide)
    exact ⟨_, rfl, .cons (Nat.lt_add_of_pos_right hsome) .nil⟩
  case isFalse hext =>
    rw [if_neg hext, hraw]
    exact ⟨[], rfl, .nil⟩

/-- The payloads of the groups, wherever they are. -/
theorem walkLayout_on (hsats : sats ≤ maxSats) (hmeas : meas ≤ maxMeas) :
    ∀ (headers : List Header) (payload : List (List UInt8)) {pos : ℕ},
    (∀ h ∈ headers, h.Valid) → List.Forall₂ (IsGroup sats meas) headers payload →
    buf.drop pos = payload.flatten ++ rest →
      ∃ layout, (walkLayout headers pos).on buf =
          .ok (some (layout, pos + payload.flatten.length)) ∧
        Tiles (pos + payload.flatten.length) pos (layout.map Field.span)
  | [], payload, pos, _, hpayload, _ => by
    obtain rfl : payload = [] := List.forall₂_nil_left_iff.1 hpayload
    exact ⟨[], rfl, .nil⟩
  | h :: headers, payload, pos, hall, hpayload, hbuf => by
    obtain ⟨bytes, payload, hgroup, hrest, rfl⟩ := List.forall₂_cons_left_iff.1 hpayload
    obtain ⟨hv, hall⟩ := List.forall_mem_cons.1 hall
    obtain ⟨fields, rawmeas, rfl, hfields, hraw⟩ := hgroup
    rw [List.flatten_cons, List.append_assoc, List.append_assoc] at hbuf
    obtain ⟨layout, hwalk, htiles⟩ :=
      walkFields_on hsats (List.range 15) fields hv.sized hfields hbuf
    obtain ⟨layout', hwalk', htiles'⟩ :=
      walkRawmeas_on (g := h.group) hmeas hraw (drop_add hbuf)
    obtain ⟨layout'', hwalk'', htiles''⟩ :=
      walkLayout_on hsats hmeas headers payload hall hrest (drop_add (drop_add hbuf))
    rw [List.flatten_cons, List.length_append, List.length_append, ← Nat.add_assoc,
      ← Nat.add_assoc]
    refine ⟨layout ++ layout' ++ layout'', ?_, ?_⟩
    · rw [walkLayout, Reading.bind_on_some hwalk, Reading.bind_on_some hwalk',
        Reading.bind_on_some hwalk'']
      rfl
    · rw [List.map_append, List.map_append]
      exact (htiles.append htiles').append htiles''

/-! ### The frame -/

variable {headers : List Header} {frame : List UInt8}

theorem groupSet_lt {bits : List ℕ} (h : ∀ g ∈ bits, g < 7) : groupSet bits < 2 ^ 7 := by
  refine Nat.lt_pow_two_of_testBit _ fun i hi => Bool.eq_false_iff.2 fun hbit => ?_
  exact (h i ((testBit_groupSet bits i).1 hbit)).not_ge hi

theorem groupSet_ne_zero {bits : List ℕ} (h : bits ≠ []) : groupSet bits ≠ 0 := by
  obtain ⟨g, hg⟩ := List.exists_mem_of_ne_nil bits h
  intro hzero
  have hbit := (testBit_groupSet bits g).2 hg
  rw [hzero, Nat.zero_testBit] at hbit
  cases hbit

/-- Of a frame `walk` finds the fields, one after the other, and the end. -/
theorem walk_frame (hall : ∀ h ∈ headers, h.Valid)
    (hsorted : (headers.map Header.group).Pairwise (· < ·)) (hsats : sats ≤ maxSats)
    (hmeas : meas ≤ maxMeas) (hframe : IsFrame headers sats meas frame) :
    ∃ layout, walk.on frame = .ok (some (layout, frame.length)) ∧
      Tiles (frame.length - 2) (2 + (headers.flatMap headerBytes).length)
        (layout.map Field.span) := by
  obtain ⟨payload, crc, rfl, hpayload, hcrc⟩ := hframe.parts
  set bits := headers.map Header.group with hbits
  have hlt : groupSet bits < 2 ^ 7 := groupSet_lt fun g hg => by
    obtain ⟨h, hh, rfl⟩ := List.mem_map.1 hg
    exact (hall h hh).group
  have hflag : groupSet bits &&& 0x80 = 0 := by
    have hand := Nat.and_two_pow (groupSet bits) 7
    rwa [Nat.testBit_lt_two_pow hlt, Bool.toNat_false, Nat.zero_mul] at hand
  have hinvalid : ¬(groupSet bits = 0 ∨ groupSet bits &&& 0x80 ≠ 0) := by
    rintro (hzero | hne)
    · exact groupSet_ne_zero (by simpa [hbits] using hframe.some) hzero
    · exact hne hflag
  set buf := [0xFA, UInt8.ofNat (groupSet bits)] ++ headers.flatMap headerBytes ++
    payload.flatten ++ crc with hbuf
  have hgroups : (byte 1).on buf = .ok (some (groupSet bits)) := by
    have hbyte : (UInt8.ofNat (groupSet bits)).toNat = groupSet bits :=
      UInt8.toNat_ofNat'.trans (Nat.mod_eq_of_lt (hlt.trans (by decide)))
    rw [byte_on]
    exact congrArg (fun n => Except.ok (some n)) hbyte
  have hdrop : buf.drop 2 = headers.flatMap headerBytes ++ (payload.flatten ++ crc) := by
    rw [hbuf, List.append_assoc, List.append_assoc]
    rfl
  have hheaders := walkHeaders_on (List.range 7) headers
    (Upcoming.start hsorted fun h hh => (hall h hh).group) hall hdrop
  obtain ⟨layout, hlayout, htiles⟩ := walkLayout_on hsats hmeas headers payload hall hpayload
    (drop_add hdrop)
  have hlength : buf.length =
      2 + (headers.flatMap headerBytes).length + payload.flatten.length + 2 := by
    rw [hbuf, List.length_append, List.length_append, List.length_append, hcrc]
    rfl
  refine ⟨layout, ?_, ?_⟩
  · rw [walk, Reading.bind_on_some hgroups, if_neg hinvalid, Reading.bind_on_some hheaders,
      Reading.bind_on_some hlayout, hlength]
    rfl
  · rwa [hlength, Nat.add_sub_cancel]

/-! ## The budget -/

/-- What a group takes in a frame. -/
def groupLength (sats meas : ℕ) (h : Header) : ℕ :=
  (headerBytes h).length + ((maskBits h.mask).map (fieldLength sats h.group)).sum +
    if h.ext &&& extRawmeas ≠ 0 then rawmeasHeader + rawmeasRecord * meas else 0

theorem length_flatten_fields {bits : List ℕ} {fields : List (List UInt8)}
    (h : List.Forall₂ (IsField sats g) bits fields) :
    fields.flatten.length = (bits.map (fieldLength sats g)).sum := by
  induction h with
  | nil => rfl
  | cons hfield _ ih =>
    rw [List.flatten_cons, List.length_append, ih, hfield.length, List.map_cons, List.sum_cons]

theorem IsGroup.length_eq (h' : IsGroup sats meas h bytes) :
    (headerBytes h).length + bytes.length = groupLength sats meas h := by
  obtain ⟨fields, rawmeas, rfl, hfields, hraw⟩ := h'
  rw [List.length_append, length_flatten_fields hfields, groupLength, ← Nat.add_assoc]
  split at hraw
  case isTrue hext => rw [if_pos hext, hraw.length]
  case isFalse hext => rw [if_neg hext, hraw, List.length_nil]

theorem length_groups {payload : List (List UInt8)}
    (h : List.Forall₂ (IsGroup sats meas) headers payload) :
    (headers.flatMap headerBytes).length + payload.flatten.length =
      (headers.map (groupLength sats meas)).sum := by
  induction h with
  | nil => rfl
  | cons hgroup _ ih =>
    rw [List.flatMap_cons, List.flatten_cons, List.length_append, List.length_append,
      List.map_cons, List.sum_cons, ← ih, ← hgroup.length_eq]
    omega

theorem IsFrame.length_eq (h : IsFrame headers sats meas frame) :
    frame.length = 4 + (headers.map (groupLength sats meas)).sum := by
  obtain ⟨payload, crc, rfl, hpayload, hcrc⟩ := h.parts
  rw [← length_groups hpayload, List.length_append, List.length_append, List.length_append, hcrc,
    List.length_cons, List.length_singleton]
  omega

/-- The field maps that are asked for : groups other than the second GPS group, with masks that are
not empty, of bits that have a size, and with the raw measurements, if with any extension, in the
GPS group. -/
structure Budgeted (fields : Dict Str ℕ) (gpsExt : Option ℕ) : Prop where
  nodup : fields.keys.Nodup
  names : ∀ a ∈ fields, a.1 ∈ groupBits.keys ∧ a.1 ≠ "gps2".toList
  masks : ∀ a ∈ fields, a.2 ≠ 0 ∧ a.2 < 2 ^ 15
  sized : ∀ a ∈ fields, ∀ bit ∈ maskBits a.2, (fieldSizes.getD (groupBit a.1) []).getD bit 0 ≠ 0
  ext : ∀ ext ∈ gpsExt, ext = extRawmeas ∧ "gps".toList ∈ fields.keys

variable {fields : Dict Str ℕ} {gpsExt : Option ℕ}

/-- The sizes of the fields, and of the records of the satellites. -/
theorem sum_fieldLength (sats g mask : ℕ) :
    ((maskBits mask).map (fieldLength sats g)).sum =
      ((maskBits mask).map fun bit => (fieldSizes.getD g []).getD bit 0).sum +
        if isGps g = true ∧ mask &&& satinfo ≠ 0 then satinfoRecord * sats else 0 := by
  have hrange : List.range 15 = List.range 14 ++ [satinfoBit] := by decide
  set lower := (List.range 14).filter fun bit => mask &&& (1 <<< bit) ≠ 0 with hlower
  have hbits : maskBits mask = lower ++ if mask &&& satinfo ≠ 0 then [satinfoBit] else [] := by
    rw [maskBits, hrange, List.filter_append, ← hlower, List.filter_singleton, satinfo]
    by_cases hbit : mask &&& 1 <<< satinfoBit = 0 <;> simp [hbit]
  have hsame : lower.map (fieldLength sats g) =
      lower.map fun bit => (fieldSizes.getD g []).getD bit 0 := by
    refine List.map_congr_left fun bit hbit => if_neg fun hsat => ?_
    have hlt := List.mem_range.1 (List.mem_filter.1 hbit).1
    rw [hsat.2] at hlt
    exact absurd hlt (by decide)
  have hsize : isGps g = true → (fieldSizes.getD g []).getD satinfoBit 0 = satinfoHeader := by
    intro hg
    rcases Bool.or_eq_true_iff.1 hg with h | h <;> rw [eq_of_beq h] <;> rfl
  rw [hbits, List.map_append, List.map_append, List.sum_append, List.sum_append, hsame]
  by_cases hbit : mask &&& satinfo ≠ 0
  · by_cases hg : isGps g = true
    · simp only [hbit, hg, if_pos, and_self, List.map_singleton, List.sum_singleton, fieldLength,
        hsize hg, Nat.add_assoc, not_false_eq_true, ne_eq]
    · simp [hbit, hg, fieldLength]
  · simp [hbit]

theorem isGps_groupBit : ∀ name ∈ groupBits.keys, name ≠ "gps2".toList →
    (isGps (groupBit name) = true ↔ name = "gps".toList) := by
  decide

theorem headerBytes_length (h : Header) :
    (headerBytes h).length = 2 + if h.ext = 0 then 0 else 2 := by
  unfold headerBytes
  split <;> rfl

/-- What is counted for a group is what it takes. -/
theorem Budgeted.groupTotal_eq (h : Budgeted fields gpsExt) {a : Str × ℕ} (ha : a ∈ fields) :
    groupTotal gpsExt sats meas a = some (groupLength sats meas (headerOf gpsExt a)) := by
  obtain ⟨hname, hsecond⟩ := h.names a ha
  have hgps := isGps_groupBit a.1 hname hsecond
  rw [groupTotal, (groupBits_facts a.1 hname).1, groupLength, headerBytes_length, headerOf,
    sum_fieldLength, Option.map_some]
  refine congrArg some ?_
  by_cases hfirst : a.1 = "gps".toList
  · rcases hext : gpsExt with _ | ext
    · simp only [if_pos hfirst, gpsTotal, hgps.2 hfirst, true_and, Option.getD_none, if_true,
        Nat.zero_and, ne_eq, not_true_eq_false, if_false]
      omega
    · obtain ⟨rfl, -⟩ := h.ext ext hext
      have hne : ¬extRawmeas = 0 := by decide
      have hbit : extRawmeas &&& extRawmeas ≠ 0 := by decide
      simp only [if_pos hfirst, gpsTotal, hgps.2 hfirst, true_and, Option.getD_some, if_neg hne,
        if_pos hbit]
      omega
  · have hno : ¬isGps (groupBit a.1) = true := fun hg => hfirst (hgps.1 hg)
    simp only [if_neg hfirst, hno, false_and, if_false, if_true, Nat.zero_and, ne_eq,
      not_true_eq_false, Nat.add_zero, Bool.false_eq_true]

theorem Budgeted.valid (h : Budgeted fields gpsExt) {a : Str × ℕ} (ha : a ∈ fields) :
    (headerOf gpsExt a).Valid where
  group := List.mem_range.1 (groupBits_facts a.1 (h.names a ha).1).2.2
  mask := (h.masks a ha).2
  some := (h.masks a ha).1
  sized := h.sized a ha
  ext := by
    obtain ⟨hname, hsecond⟩ := h.names a ha
    by_cases hfirst : a.1 = "gps".toList
    · rcases hext : gpsExt with _ | ext
      · exact Or.inl (by simp [headerOf])
      · refine Or.inr ⟨?_, (isGps_groupBit a.1 hname hsecond).2 hfirst⟩
        rw [headerOf, if_pos hfirst, Option.getD_some, (h.ext ext hext).1]
    · exact Or.inl (if_neg hfirst)

theorem Budgeted.frameBytes_eq (h : Budgeted fields gpsExt) (sats meas : ℕ) :
    frameBytes fields gpsExt sats meas =
      some (4 + (fields.map fun a => groupLength sats meas (headerOf gpsExt a)).sum) := by
  have hfold : ∀ (items : List (Str × ℕ)) (total : ℕ), (∀ a ∈ items, a ∈ fields) →
      items.foldlM (fun total a => (groupTotal gpsExt sats meas a).map (total + ·)) total =
        some (total + (items.map fun a => groupLength sats meas (headerOf gpsExt a)).sum) := by
    intro items
    induction items with
    | nil => exact fun total _ => rfl
    | cons a items ih =>
      intro total hin
      obtain ⟨ha, hin⟩ := List.forall_mem_cons.1 hin
      rw [List.foldlM_cons, h.groupTotal_eq ha, List.map_cons, List.sum_cons, ← Nat.add_assoc]
      exact ih _ hin
  exact hfold fields 4 fun a ha => ha

theorem headersOf_perm (fields : Dict Str ℕ) (gpsExt : Option ℕ) :
    (headersOf fields gpsExt).Perm (fields.map (headerOf gpsExt)) :=
  Keyed.sortBy_perm _

theorem Budgeted.sorted (h : Budgeted fields gpsExt) :
    ((headersOf fields gpsExt).map Header.group).Pairwise (· < ·) := by
  refine Keyed.sortBy_strict ?_
  have hmap : (fields.map (headerOf gpsExt)).map Header.group = fields.keys.map groupBit := by
    rw [List.map_map, Dict.keys, List.map_map]
    rfl
  have hname : ∀ name ∈ fields.keys, groupName (groupBit name) = name := by
    intro name hname
    obtain ⟨a, ha, rfl⟩ := List.mem_map.1 hname
    exact (groupBits_facts a.1 (h.names a ha).1).2.1
  rw [hmap]
  refine h.nodup.map_on fun name hin name' hin' heq => ?_
  rw [← hname name hin, heq, hname name' hin']

/-- The budget of a field map is the length of every frame of its groups, and of such a frame the
fields follow one another from the end of the header to the CRC. -/
theorem frame_bytes_agrees (fields : Dict Str ℕ) (gpsExt : Option ℕ)
    (h : Budgeted fields gpsExt) {sats meas : ℕ} (hsats : sats ≤ 64) (hmeas : meas ≤ 200)
    (frame : List UInt8) (hframe : IsFrame (headersOf fields gpsExt) sats meas frame) :
    ∃ n layout, frameBytes fields gpsExt sats meas = some n ∧
      binaryLength.on frame = .ok (some n) ∧ fieldLayout frame = .ok layout ∧
      Tiles (n - 2) (2 + ((headersOf fields gpsExt).flatMap headerBytes).length)
        (layout.map Field.span) ∧
      frame.length = n := by
  have hperm := headersOf_perm fields gpsExt
  have hvalid : ∀ h' ∈ headersOf fields gpsExt, h'.Valid := by
    intro h' hin
    obtain ⟨a, ha, rfl⟩ := List.mem_map.1 (hperm.mem_iff.1 hin)
    exact h.valid ha
  have hsum : frameBytes fields gpsExt sats meas = some frame.length := by
    rw [h.frameBytes_eq, hframe.length_eq, (hperm.map _).sum_eq, List.map_map]
    rfl
  obtain ⟨layout, hwalk, htiles⟩ := walk_frame hvalid h.sorted hsats hmeas hframe
  refine ⟨frame.length, layout, hsum, ?_, ?_, htiles, rfl⟩
  · rw [binaryLength, Reading.bind_on_some hwalk]
    rfl
  · rw [fieldLayout, hwalk]

/-- The satellites and the raw measurements. -/
def measurements : Dict Str ℕ := [("gps".toList, 0x4000)]

/-- A frame of theirs, of one satellite and one measurement. -/
def oneOfEach : List UInt8 :=
  [0xFA, 0x08, 0x00, 0xC0, 0x01, 0x00] ++ 0x01 :: List.replicate 9 0 ++
    (List.replicate 10 0 ++ 0x01 :: List.replicate 29 0) ++ [0, 0]

theorem isFrame_oneOfEach : IsFrame (headersOf measurements (some 1)) 1 1 oneOfEach := by
  have hheaders : headersOf measurements (some 1) = [⟨3, 0x4000, 1⟩] :=
    List.perm_singleton.1 (headersOf_perm measurements (some 1))
  rw [hheaders]
  refine ⟨List.cons_ne_nil _ _, [0x01 :: List.replicate 9 0 ++ (List.replicate 10 0 ++
    0x01 :: List.replicate 29 0)], [0, 0], by decide, ?_, rfl⟩
  refine List.Forall₂.cons ⟨[0x01 :: List.replicate 9 0], _, rfl, ?_, ?_⟩ List.Forall₂.nil
  · exact List.Forall₂.cons ⟨rfl, fun _ _ => rfl⟩ List.Forall₂.nil
  · exact ⟨rfl, rfl⟩

theorem frame_bytes_agrees_one :
    ∃ n layout, frameBytes measurements (some 1) 1 1 = some n ∧
      binaryLength.on oneOfEach = .ok (some n) ∧ fieldLayout oneOfEach = .ok layout ∧
      Tiles (n - 2) (2 + ((headersOf measurements (some 1)).flatMap headerBytes).length)
        (layout.map Field.span) ∧
      oneOfEach.length = n :=
  frame_bytes_agrees measurements (some 1)
    ⟨by decide, by decide, by decide, by decide, by decide⟩ (by decide) (by decide) oneOfEach
    isFrame_oneOfEach

end Vn

end Mtrtk
