import Mathlib.Algebra.GroupWithZero.Nat
import Mtrtk.Readings

/-!
# The layout of a VectorNav frame

`rover/drivers/vectornav/fields.py` : a binary frame is `FA`, a byte of groups, for each
group a word of fields (and for a GPS group an extension word), the payload and a CRC.
`walk` finds the fields and the length of the frame, or wants more bytes. It reads one
byte where the source checks that the byte is there ; `None` is `none`.

`walk_reads` : its answers do not change when the buffer grows, and it wants more bytes
only of a buffer shorter than `maxWait`. The last count it reads is the number of
measurements of the second GPS group, behind the largest payload of every other group
(`roomFor`).
-/

namespace Mtrtk

namespace Vn

/-- `FIELD_SIZES`. -/
def fieldSizes : List (List ℕ) :=
  [[8, 8, 8, 12, 16, 12, 24, 12, 12, 24, 20, 28, 2, 4, 8],
    [8, 8, 8, 2, 8, 8, 8, 4, 4, 1, 0, 0, 0, 0, 0],
    [2, 12, 12, 12, 4, 4, 16, 12, 12, 12, 12, 2, 40, 0, 0],
    [8, 8, 2, 1, 1, 24, 24, 12, 12, 12, 4, 4, 2, 28, 2],
    [2, 12, 16, 36, 12, 12, 12, 12, 12, 12, 28, 24, 12, 0, 0],
    [2, 24, 24, 12, 12, 12, 12, 12, 12, 4, 4, 68, 64, 0, 0],
    [8, 8, 2, 1, 1, 24, 24, 12, 12, 12, 4, 4, 2, 28, 2]]

/-- Membership of `GPS_GROUPS`. -/
def isGps (g : ℕ) : Bool := g == 3 || g == 6

def extFlag : ℕ := 0x8000
/-- `~EXT_FLAG`, of a word. -/
def fieldBits : ℕ := 0x7FFF
def extRawmeas : ℕ := 0x0001
/-- `~EXT_RAWMEAS`, of a word. -/
def extUnknown : ℕ := 0xFFFE
def rawmeasBit : ℕ := 16
def satinfoBit : ℕ := 14
def satinfoHeader : ℕ := 2
def satinfoRecord : ℕ := 8
def rawmeasHeader : ℕ := 12
def rawmeasRecord : ℕ := 28
def rawmeasCountOffset : ℕ := 10
def maxSats : ℕ := 64
def maxMeas : ℕ := 200

/-- One field : group bit, field bit, offset in the frame, size. -/
structure Field where
  group : ℕ
  bit : ℕ
  offset : ℕ
  size : ℕ
  deriving DecidableEq, Repr

/-- A number in capital hexadecimal digits, at least `width` of them. -/
def hexUpper (width n : ℕ) : String :=
  let digits := (Nat.toDigits 16 n).map Char.toUpper
  String.ofList (List.replicate (width - digits.length) '0' ++ digits)

/-- A reading of a frame, the error being the text of the `ValueError`. -/
abbrev Walk := Reading UInt8 String

/-- `buf[i]`, where the source checks the length. -/
def byte (i : ℕ) : Walk ℕ := return (← Reading.readAt i).toNat

/-- `int.from_bytes(buf[i : i + 2], "little")`. -/
def word (i : ℕ) : Walk ℕ := do
  let lo ← byte i
  let hi ← byte (i + 1)
  return lo + 256 * hi

/-- One entry of `headers` : group, field mask, extension mask. -/
structure Header where
  group : ℕ
  mask : ℕ
  ext : ℕ
  deriving DecidableEq, Repr

/-- The extension word of a group whose field word is `mask`, and the position behind it. -/
def walkExt (g mask pos : ℕ) : Walk (ℕ × ℕ) :=
  if mask &&& extFlag ≠ 0 then
    if isGps g then do
      let ext ← word pos
      if ext &&& extUnknown ≠ 0 then Reading.fail s!"unknown GPS extension field 0x{hexUpper 4 ext}"
      else return (ext, pos + 2)
    else Reading.fail s!"extension bit outside the GPS groups (group {g})"
  else return (0, pos)

/-- The loop over the groups : the headers, and the position behind them. -/
def walkHeaders (groups : ℕ) : List ℕ → ℕ → Walk (List Header × ℕ)
  | [], pos => return ([], pos)
  | g :: gs, pos =>
    if groups &&& (1 <<< g) = 0 then walkHeaders groups gs pos
    else do
      let mask ← word pos
      let (ext, pos) ← walkExt g mask (pos + 2)
      if mask &&& fieldBits = 0 ∧ ext = 0 then Reading.fail s!"group {g} selected with no fields"
      else
        let (headers, pos) ← walkHeaders groups gs pos
        return (⟨g, mask &&& fieldBits, ext⟩ :: headers, pos)

/-- The size of a field at `pos`, `size` being the one of the table. -/
def fieldSize (g bit size pos : ℕ) : Walk ℕ :=
  if size = 0 then Reading.fail s!"unknown field bit {bit} in group {g}"
  else if isGps g ∧ bit = satinfoBit then do
    let n ← byte pos
    if n > maxSats then Reading.fail s!"implausible numSats {n}"
    else return satinfoHeader + satinfoRecord * n
  else return size

/-- The loop over the field bits of a group. -/
def walkFields (g mask : ℕ) : List ℕ → ℕ → Walk (List Field × ℕ)
  | [], pos => return ([], pos)
  | bit :: bits, pos =>
    if mask &&& (1 <<< bit) = 0 then walkFields g mask bits pos
    else do
      let size ← fieldSize g bit ((fieldSizes.getD g []).getD bit 0) pos
      let (layout, pos') ← walkFields g mask bits (pos + size)
      return (⟨g, bit, pos, size⟩ :: layout, pos')

/-- The RawMeas field of an extension mask. -/
def walkRawmeas (g ext pos : ℕ) : Walk (List Field × ℕ) :=
  if ext &&& extRawmeas ≠ 0 then do
    let m ← byte (pos + rawmeasCountOffset)
    if m > maxMeas then Reading.fail s!"implausible numMeas {m}"
    else
      let size := rawmeasHeader + rawmeasRecord * m
      return ([⟨g, rawmeasBit, pos, size⟩], pos + size)
  else return ([], pos)

/-- The loop over the headers. -/
def walkLayout : List Header → ℕ → Walk (List Field × ℕ)
  | [], pos => return ([], pos)
  | h :: headers, pos => do
    let (fields, pos) ← walkFields h.group h.mask (List.range 15) pos
    let (rawmeas, pos) ← walkRawmeas h.group h.ext pos
    let (layout, pos) ← walkLayout headers pos
    return (fields ++ rawmeas ++ layout, pos)

/-- `_walk` : the fields and the length of the frame with its CRC. -/
def walk : Walk (List Field × ℕ) := do
  let groups ← byte 1
  if groups = 0 ∨ groups &&& 0x80 ≠ 0 then
    Reading.fail s!"invalid groups byte 0x{hexUpper 2 groups}"
  else
    let (headers, pos) ← walkHeaders groups (List.range 7) 2
    let (layout, pos) ← walkLayout headers pos
    return (layout, pos + 2)

/-- `binary_length`. -/
def binaryLength : Walk ℕ := return (← walk).2

/-! ## How far it reads -/

/-- The largest size of a field. -/
def maxFieldSize (g bit : ℕ) : ℕ :=
  if isGps g ∧ bit = satinfoBit then satinfoHeader + satinfoRecord * maxSats
  else (fieldSizes.getD g []).getD bit 0

/-- The largest size of some fields of a group. -/
def maxFieldsSize (g : ℕ) (bits : List ℕ) : ℕ := (bits.map (maxFieldSize g)).sum

/-- The largest RawMeas field of a group. -/
def maxRawmeas (g : ℕ) : ℕ := if isGps g then rawmeasHeader + rawmeasRecord * maxMeas else 0

/-- How far into a RawMeas field of a group its count is read. -/
def countReach (g : ℕ) : ℕ := if isGps g then rawmeasCountOffset + 1 else 0

/-- How far behind the headers the counts of these groups are read. -/
def roomFor : List ℕ → ℕ
  | [] => 0
  | g :: gs =>
    maxFieldsSize g (List.range 15) +
      max (countReach g) (if gs = [] then 0 else maxRawmeas g + roomFor gs)

/-- The largest headers of these groups. -/
def maxHeaders (gs : List ℕ) : ℕ := (gs.map fun g => if isGps g then 4 else 2).sum

/-- A buffer on which `walk` wants more is shorter. -/
def maxWait : ℕ := 2 + maxHeaders (List.range 7) + roomFor (List.range 7)

theorem maxWait_eq : maxWait = 7828 := by decide

variable {N : ℕ}

theorem byte_reads {i : ℕ} (h : i < N) : Reads N (byte i) fun n => n < 256 :=
  (Reads.readAt h).bind fun x _ => Reads.pure x.toNat_lt

theorem word_reads {i : ℕ} (h : i + 1 < N) : Reads N (word i) fun _ => True :=
  (byte_reads (by omega)).bind fun _ _ => (byte_reads h).bind fun _ _ => Reads.pure trivial

theorem walkExt_reads {g mask pos : ℕ} (h : isGps g = true → pos + 1 < N) :
    Reads N (walkExt g mask pos) fun r =>
      r.2 ≤ pos + (if isGps g then 2 else 0) ∧ (r.1 ≠ 0 → isGps g = true) := by
  unfold walkExt
  refine Reads.ite (fun _ => Reads.ite (fun hg => ?_) fun _ => Reads.fail _) fun _ => ?_
  · refine (word_reads (h hg)).bind fun ext _ => Reads.ite (fun _ => Reads.fail _) fun _ => ?_
    exact Reads.pure ⟨by simp [hg], fun _ => hg⟩
  · exact Reads.pure ⟨by simp, fun h => absurd rfl h⟩

/-- The headers are of the groups asked for, in order, and an extension is of a GPS group. -/
theorem walkHeaders_reads (groups : ℕ) : ∀ (gs : List ℕ) (pos : ℕ), pos + maxHeaders gs ≤ N →
    Reads N (walkHeaders groups gs pos) fun r =>
      r.2 ≤ pos + maxHeaders gs ∧ (r.1.map Header.group).Sublist gs ∧
        ∀ h ∈ r.1, h.ext ≠ 0 → isGps h.group = true
  | [], pos, _ => Reads.pure ⟨by simp [maxHeaders], List.Sublist.refl _, by simp⟩
  | g :: gs, pos, hN => by
    have hmax : maxHeaders (g :: gs) = (if isGps g then 4 else 2) + maxHeaders gs := rfl
    have hone : (if isGps g then 4 else 2) = 2 + (if isGps g then 2 else 0) := by split <;> rfl
    rw [hmax, hone] at hN ⊢
    unfold walkHeaders
    refine Reads.ite (fun _ => ?_) fun _ => ?_
    · refine (walkHeaders_reads groups gs pos (by omega)).mono fun r hr => ?_
      exact ⟨by omega, hr.2.1.cons g, hr.2.2⟩
    · refine (word_reads (by omega)).bind fun mask _ => ?_
      refine (walkExt_reads fun hg => by rw [if_pos hg] at hN; omega).bind fun r hr => ?_
      obtain ⟨ext, pos'⟩ := r
      obtain ⟨hpos, hext⟩ := hr
      refine Reads.ite (fun _ => Reads.fail _) fun _ => ?_
      refine (walkHeaders_reads groups gs pos' (by dsimp only at hpos; omega)).bind fun r hr => ?_
      obtain ⟨hpos', hsub, hall⟩ := hr
      refine Reads.pure ⟨by dsimp only at hpos ⊢; omega, hsub.cons_cons g, ?_⟩
      exact List.forall_mem_cons.2 ⟨hext, hall⟩

theorem fieldSize_reads {g bit pos : ℕ} (h : pos + maxFieldSize g bit ≤ N) :
    Reads N (fieldSize g bit ((fieldSizes.getD g []).getD bit 0) pos) fun size =>
      size ≤ maxFieldSize g bit := by
  unfold fieldSize
  unfold maxFieldSize at h ⊢
  refine Reads.ite (fun _ => Reads.fail _) fun _ => Reads.ite (fun hsat => ?_) fun hsat => ?_
  · rw [if_pos hsat] at h ⊢
    have hhead : satinfoHeader = 2 := rfl
    refine (byte_reads (by omega)).bind fun n _ => Reads.ite (fun _ => Reads.fail _) fun hn => ?_
    exact Reads.pure (Nat.add_le_add_left (Nat.mul_le_mul_left _ (Nat.not_lt.1 hn)) _)
  · rw [if_neg hsat]
    exact Reads.pure (Nat.le_refl _)

theorem walkFields_reads (g mask : ℕ) : ∀ (bits : List ℕ) (pos : ℕ),
    pos + maxFieldsSize g bits ≤ N →
      Reads N (walkFields g mask bits pos) fun r => r.2 ≤ pos + maxFieldsSize g bits
  | [], pos, _ => Reads.pure (by simp)
  | bit :: bits, pos, hN => by
    have hmax : maxFieldsSize g (bit :: bits) = maxFieldSize g bit + maxFieldsSize g bits := rfl
    rw [hmax] at hN ⊢
    unfold walkFields
    refine Reads.ite (fun _ => ?_) fun _ => ?_
    · exact (walkFields_reads g mask bits pos (by omega)).mono fun r hr => by omega
    · refine (fieldSize_reads (by omega)).bind fun size hsize => ?_
      refine (walkFields_reads g mask bits (pos + size) (by omega)).bind fun r hr => ?_
      exact Reads.pure (by dsimp only at hr ⊢; omega)

theorem walkRawmeas_reads {g ext pos : ℕ} (hext : ext ≠ 0 → isGps g = true)
    (h : pos + countReach g ≤ N) :
    Reads N (walkRawmeas g ext pos) fun r => r.2 ≤ pos + maxRawmeas g := by
  unfold walkRawmeas
  refine Reads.ite (fun he => ?_) fun _ => Reads.pure (by simp)
  have hg : isGps g = true := hext (by rintro rfl; exact he rfl)
  simp only [countReach, maxRawmeas, hg, if_true] at h ⊢
  refine (byte_reads (by omega)).bind fun m _ => Reads.ite (fun _ => Reads.fail _) fun hm => ?_
  have hsize : rawmeasRecord * m ≤ rawmeasRecord * maxMeas :=
    Nat.mul_le_mul_left _ (Nat.not_lt.1 hm)
  exact Reads.pure (by dsimp only; omega)

theorem walkLayout_reads : ∀ (headers : List Header) (pos : ℕ),
    (∀ h ∈ headers, h.ext ≠ 0 → isGps h.group = true) →
      (headers ≠ [] → pos + roomFor (headers.map Header.group) ≤ N) →
        Reads N (walkLayout headers pos) fun _ => True
  | [], _, _, _ => Reads.pure trivial
  | h :: headers, pos, hall, hN => by
    obtain ⟨hext, hall⟩ := List.forall_mem_cons.1 hall
    have hN := hN (List.cons_ne_nil _ _)
    rw [List.map_cons, roomFor] at hN
    unfold walkLayout
    refine (walkFields_reads h.group h.mask _ pos (by omega)).bind fun r hr => ?_
    refine (walkRawmeas_reads hext (by omega)).bind fun r' hr' => ?_
    have hrest : headers ≠ [] → r'.2 + roomFor (headers.map Header.group) ≤ N := by
      intro hne
      rw [if_neg (by simpa using hne)] at hN
      omega
    refine (walkLayout_reads headers r'.2 hall hrest).bind fun r'' _ => ?_
    exact Reads.pure trivial

theorem roomFor_sublist {gs gs' : List ℕ} (h : gs.Sublist gs') : roomFor gs ≤ roomFor gs' := by
  induction h with
  | slnil => exact Nat.le_refl _
  | @cons gs gs' g h ih =>
    rw [roomFor]
    by_cases hnil : gs' = []
    · subst hnil
      rw [List.sublist_nil.1 h]
      exact Nat.zero_le _
    · rw [if_neg hnil]
      omega
  | @cons_cons gs gs' g h ih =>
    rw [roomFor, roomFor]
    by_cases hnil : gs = []
    · rw [if_pos hnil]
      omega
    · have hnil' : gs' ≠ [] := by
        rintro rfl
        exact hnil (List.sublist_nil.1 h)
      rw [if_neg hnil, if_neg hnil']
      omega

/-- The answers of `walk` do not change, it waits only for a short while, and a frame has a
CRC. -/
theorem walk_reads : Reads maxWait walk fun r => 2 ≤ r.2 := by
  have hmax : maxWait = 2 + maxHeaders (List.range 7) + roomFor (List.range 7) := rfl
  have hpos := maxWait_eq
  refine (byte_reads (by omega)).bind fun groups _ => ?_
  refine Reads.ite (fun _ => Reads.fail _) fun _ => ?_
  refine (walkHeaders_reads groups (List.range 7) 2 (by omega)).bind fun r hr => ?_
  obtain ⟨hpos, hsub, hall⟩ := hr
  have hroom := roomFor_sublist hsub
  refine (walkLayout_reads r.1 r.2 hall (by omega)).bind fun r' _ => Reads.pure ?_
  exact Nat.le_add_left 2 _

theorem binaryLength_reads : Reads maxWait binaryLength fun n => 2 ≤ n :=
  walk_reads.bind fun _ hr => Reads.pure hr

end Vn

end Mtrtk
