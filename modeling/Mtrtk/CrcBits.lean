import Mathlib.Data.Nat.Bitwise
import Mtrtk.Crc
import Mtrtk.SbgFrames
import Mtrtk.ShiftRegister
import Mtrtk.VnFrames

/-!
# Checksums bit by bit

The three tables of the source, of `core/crc.py`, of `sbg/crc.py` and of `vectornav/checksum.py`,
against the registers they are made of. A shift of the source is a step of the register where there
is no message (`crc24qShift_idle`), so that an entry of a table is what a byte leaves in it.

`crc_bitwise` is about messages of any length, and says that a message with its CRC-16 behind it
leaves nothing, which is what the VectorNav framer asks for.
-/

namespace Mtrtk

open ShiftRegister

/-- CRC-24Q. -/
def register24q : ShiftRegister 24 := leading 0x1864CFB#24

/-- CRC-16/KERMIT. -/
def registerKermit : ShiftRegister 16 := reflected 0x8408#16

/-- CRC-16/XMODEM. -/
def registerXmodem : ShiftRegister 16 := leading 0x1021#16

/-- A fold over the bytes that does to the register what their bits do. -/
theorem foldl_toNat {w : ℕ} {r : ShiftRegister w} {bits : UInt8 → List Bool} {f : ℕ → UInt8 → ℕ}
    (hf : ∀ (c : BitVec w) (b : UInt8), f c.toNat b = (r.feed c (bits b)).toNat)
    (data : List UInt8) (c : BitVec w) :
    data.foldl f c.toNat = (r.feed c (data.flatMap bits)).toNat := by
  induction data generalizing c with
  | nil => rfl
  | cons b data ih => rw [List.foldl_cons, hf, ih, List.flatMap_cons, feed_append]

theorem getD_table (f : ℕ → ℕ) {i : ℕ} (hi : i < 256) :
    ((List.range 256).map f).getD i 0 = f i := by
  simp [List.getD_eq_getElem?_getD, List.getElem?_range hi]

theorem index_lt (n : ℕ) : n &&& 0xFF < 256 := Nat.and_lt_two_pow (n := 8) n (by decide)

theorem ofNat_shiftLeft_one (w n : ℕ) : BitVec.ofNat w (n <<< 1) = BitVec.ofNat w n <<< 1 := by
  refine BitVec.eq_of_toNat_eq ?_
  rw [BitVec.toNat_shiftLeft, BitVec.toNat_ofNat, BitVec.toNat_ofNat, Nat.shiftLeft_eq,
    Nat.shiftLeft_eq, Nat.mod_mul_mod]

theorem and_ne_zero {n m k : ℕ} (hm : m = 2 ^ k) : n &&& m ≠ 0 ↔ n.testBit k = true := by
  rw [hm, Nat.and_two_pow]
  cases n.testBit k <;> simp

theorem and_eq_mod {n m k : ℕ} (hm : m = 2 ^ k - 1) : n &&& m = n % 2 ^ k := by
  rw [hm, Nat.and_two_pow_sub_one_eq_mod]

/-! ## The shifts of the source -/

theorem crc24qShift_idle : Function.Semiconj (BitVec.ofNat 24) crc24qShift register24q.idle := by
  intro n
  have hout : (n <<< 1) &&& 0x1000000 ≠ 0 ↔ (BitVec.ofNat 24 n).msb = true := by
    rw [and_ne_zero (by rfl : 0x1000000 = 2 ^ 24), BitVec.msb_eq_getLsbD_last, BitVec.getLsbD_ofNat,
      Nat.testBit_shiftLeft]
    rfl
  simp only [crc24qShift, hout, apply_ite (BitVec.ofNat 24), BitVec.ofNat_xor,
    ofNat_shiftLeft_one, idle, step, Bool.xor_false]
  rfl

theorem xmodemShift_idle :
    Function.Semiconj (BitVec.ofNat 16) Vn.xmodemShift registerXmodem.idle := by
  intro n
  have hout : n &&& 0x8000 ≠ 0 ↔ (BitVec.ofNat 16 n).msb = true := by
    rw [and_ne_zero (by rfl : 0x8000 = 2 ^ 15), BitVec.msb_eq_getLsbD_last, BitVec.getLsbD_ofNat]
    rfl
  simp only [Vn.xmodemShift, hout, apply_ite (BitVec.ofNat 16), BitVec.ofNat_xor,
    ofNat_shiftLeft_one, idle, step, Bool.xor_false]
  rfl

/-- To the right the bits above the register count as well : there are none. -/
theorem kermitShift_idle (c : BitVec 16) :
    Sbg.kermitShift c.toNat = (registerKermit.idle c).toNat := by
  have hout : c.toNat &&& 1 ≠ 0 ↔ c.getLsbD 0 = true := and_ne_zero (k := 0) rfl
  simp only [Sbg.kermitShift, hout, idle, step, Bool.xor_false, apply_ite BitVec.toNat,
    BitVec.toNat_xor]
  rfl

/-! ## A byte -/

theorem crc24q_byte (c : BitVec 24) (b : UInt8) :
    ((c.toNat <<< 8) &&& 0xFFFFFF) ^^^
        buildCrc24qTable.getD (((c.toNat >>> 16) ^^^ b.toNat) &&& 0xFF) 0 =
      (register24q.feed c (bitsDown b)).toNat := by
  rw [buildCrc24qTable, getD_table _ (index_lt _), and_eq_mod (by rfl : 0xFFFFFF = 2 ^ 24 - 1),
    and_eq_mod (by rfl : 0xFFFFFF = 2 ^ 24 - 1), register24q, leading_byte _ (by decide),
    BitVec.toNat_xor, BitVec.toNat_shiftLeft, ← register24q, ← crc24qShift_idle.iterate_right 8,
    BitVec.toNat_ofNat, Nat.xor_comm]

theorem xmodem_byte (c : BitVec 16) (b : UInt8) :
    ((c.toNat <<< 8) &&& 0xFFFF) ^^^
        Vn.xmodemTable.getD (((c.toNat >>> 8) ^^^ b.toNat) &&& 0xFF) 0 =
      (registerXmodem.feed c (bitsDown b)).toNat := by
  rw [Vn.xmodemTable, getD_table _ (index_lt _), and_eq_mod (by rfl : 0xFFFF = 2 ^ 16 - 1),
    and_eq_mod (by rfl : 0xFFFF = 2 ^ 16 - 1), registerXmodem, leading_byte _ (by decide),
    BitVec.toNat_xor, BitVec.toNat_shiftLeft, ← registerXmodem, ← xmodemShift_idle.iterate_right 8,
    BitVec.toNat_ofNat, Nat.xor_comm]

theorem kermit_byte (c : BitVec 16) (b : UInt8) :
    Sbg.kermitTable.getD ((b.toNat ^^^ c.toNat) &&& 0xFF) 0 ^^^ (c.toNat >>> 8) =
      (registerKermit.feed c (bitsUp b)).toNat := by
  have hindex := index_lt (b.toNat ^^^ c.toNat)
  have hshift : Function.Semiconj BitVec.toNat registerKermit.idle Sbg.kermitShift := fun c =>
    (kermitShift_idle c).symm
  have hentry : ((b.toNat ^^^ c.toNat) &&& 0xFF) =
      (BitVec.ofNat 16 ((b.toNat ^^^ c.toNat) &&& 0xFF)).toNat :=
    (Nat.mod_eq_of_lt (by omega)).symm
  rw [Sbg.kermitTable, getD_table _ hindex, registerKermit, reflected_byte _ (by decide),
    BitVec.toNat_xor, BitVec.toNat_ushiftRight, ← registerKermit, hshift.iterate_right 8, ← hentry]

/-! ## A message -/

theorem crc16Xmodem_eq (data : List UInt8) :
    Vn.crc16Xmodem data = (registerXmodem.feed 0 (data.flatMap bitsDown)).toNat :=
  foldl_toNat xmodem_byte data 0

/-- The two bytes of a CRC-16, the high one first, are its bits in the order they go out. -/
theorem bitsDown_halves (c : BitVec 16) :
    bitsDown (UInt8.ofNat (c.toNat >>> 8)) ++ bitsDown (UInt8.ofNat (c.toNat &&& 0xFF)) =
      registerXmodem.outs 16 c := by
  have hbit : ∀ (n : ℕ) {k : ℕ}, k < 8 → (UInt8.ofNat n).toNat.testBit (7 - k) =
      n.testBit (7 - k) := fun n k hk => by
    rw [UInt8.toNat_ofNat', Nat.testBit_mod_two_pow, decide_eq_true (by omega : 7 - k < 8),
      Bool.true_and]
  have hrange : List.range 16 = List.range 8 ++ (List.range 8).map (8 + ·) := rfl
  rw [registerXmodem, leading_outs, hrange, List.map_append, List.map_map]
  refine congrArg₂ (· ++ ·) ?_ ?_
  · refine List.map_congr_left fun k hk => ?_
    have hk : k < 8 := List.mem_range.1 hk
    have hpos : 8 + (7 - k) = 15 - k := by omega
    rw [hbit _ hk, Nat.testBit_shiftRight, hpos, BitVec.getMsbD_eq_getLsbD,
      decide_eq_true (by omega : k < 16), Bool.true_and, BitVec.testBit_toNat]
  · refine List.map_congr_left fun k hk => ?_
    have hk : k < 8 := List.mem_range.1 hk
    have hpos : 15 - (8 + k) = 7 - k := by omega
    rw [hbit _ hk, and_eq_mod (by rfl : 0xFF = 2 ^ 8 - 1), Nat.testBit_mod_two_pow,
      decide_eq_true (by omega : 7 - k < 8), Bool.true_and, Function.comp_apply,
      BitVec.getMsbD_eq_getLsbD, decide_eq_true (by omega : 8 + k < 16), Bool.true_and, hpos,
      BitVec.testBit_toNat]

/-- The checksums of the source are the registers fed with the bits of the message. -/
theorem crc_bitwise (data : List UInt8) :
    crc24q data = (register24q.feed 0 (data.flatMap bitsDown)).toNat ∧
      Sbg.crc16Kermit data = (registerKermit.feed 0 (data.flatMap bitsUp)).toNat ∧
      Vn.crc16Xmodem data = (registerXmodem.feed 0 (data.flatMap bitsDown)).toNat ∧
      Vn.crc16Xmodem (data ++ [UInt8.ofNat (Vn.crc16Xmodem data >>> 8),
        UInt8.ofNat (Vn.crc16Xmodem data &&& 0xFF)]) = 0 := by
  refine ⟨foldl_toNat crc24q_byte data 0, foldl_toNat kermit_byte data 0, crc16Xmodem_eq data, ?_⟩
  have hgone : ∀ c : BitVec 16, registerXmodem.shift^[16] c = 0#16 := fun c => by
    rw [registerXmodem, leading_shift_iterate]
    exact BitVec.shiftLeft_eq_zero (by decide)
  rw [crc16Xmodem_eq (data ++ _), List.flatMap_append, feed_append, crc16Xmodem_eq data,
    List.flatMap_cons, List.flatMap_singleton, bitsDown_halves, feed_self _ (hgone _)]
  rfl

end Mtrtk
