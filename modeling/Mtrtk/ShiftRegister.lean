import Mathlib.Logic.Function.Iterate

/-!
# Shift registers

The bit-by-bit CRC. A register of `w` bits takes a message bit by bit (`step`) : it shifts, one of
its bits going out, and where that bit and the bit of the message differ the polynomial is added.
`leading` shifts to the left and takes the bits of a byte from the highest on, `reflected` to the
right and from the lowest on.

All of it is linear, and so a message that is taken in leaves the register as if it had been there
before (`feed_outs`). A whole byte is then one look in a table (`feed_outs_table`), and a message
behind which the register itself follows leaves nothing (`feed_self`).
-/

namespace Mtrtk

/-- A register with feedback : the bit that goes out, what is left, and what is added. -/
structure ShiftRegister (w : ℕ) where
  out : BitVec w → Bool
  shift : BitVec w → BitVec w
  poly : BitVec w
  out_xor : ∀ x y, out (x ^^^ y) = (out x ^^ out y)
  shift_xor : ∀ x y, shift (x ^^^ y) = shift x ^^^ shift y

namespace ShiftRegister

variable {w : ℕ} (r : ShiftRegister w)

/-- One bit of the message. -/
def step (c : BitVec w) (b : Bool) : BitVec w :=
  if r.out c ^^ b then r.shift c ^^^ r.poly else r.shift c

/-- The bits of a message, in order. -/
def feed (c : BitVec w) (bits : List Bool) : BitVec w := bits.foldl r.step c

/-- A step where there is no message. -/
def idle (c : BitVec w) : BitVec w := r.step c false

/-- The first `n` bits that go out where nothing is added. -/
def outs : ℕ → BitVec w → List Bool
  | 0, _ => []
  | n + 1, x => r.out x :: outs n (r.shift x)

variable {c x y : BitVec w} {n : ℕ}

theorem feed_append (c : BitVec w) (bits bits' : List Bool) :
    r.feed c (bits ++ bits') = r.feed (r.feed c bits) bits' :=
  List.foldl_append

theorem out_zero : r.out 0#w = false := by
  have h := r.out_xor 0#w 0#w
  rwa [BitVec.xor_self, Bool.xor_self] at h

theorem shift_zero : r.shift 0#w = 0#w := by
  have h := r.shift_xor 0#w 0#w
  rwa [BitVec.xor_self, BitVec.xor_self] at h

theorem idle_zero : r.idle 0#w = 0#w := by
  rw [idle, step, r.out_zero, r.shift_zero]
  rfl

theorem shift_iterate_xor (n : ℕ) (x y : BitVec w) :
    r.shift^[n] (x ^^^ y) = r.shift^[n] x ^^^ r.shift^[n] y := by
  induction n generalizing x y with
  | zero => rfl
  | succ n ih => rw [Function.iterate_succ_apply, r.shift_xor, ih]; rfl

/-- A bit that comes in is as good as one that was there. -/
theorem idle_xor (c x : BitVec w) : r.idle (c ^^^ x) = r.step c (r.out x) ^^^ r.shift x := by
  unfold idle step
  rw [r.out_xor, r.shift_xor, Bool.xor_false]
  split
  · rw [BitVec.xor_assoc, BitVec.xor_assoc, BitVec.xor_comm (r.shift x)]
  · rfl

/-- So is a message : of what was there only the rest is left. -/
theorem feed_outs (n : ℕ) (c x : BitVec w) :
    r.feed c (r.outs n x) = r.idle^[n] (c ^^^ x) ^^^ r.shift^[n] x := by
  induction n generalizing c x with
  | zero =>
    change c = c ^^^ x ^^^ x
    rw [BitVec.xor_assoc, BitVec.xor_self, BitVec.xor_zero]
  | succ n ih =>
    rw [Function.iterate_succ_apply, Function.iterate_succ_apply, r.idle_xor]
    exact ih _ _

/-- An entry of the table. -/
theorem idle_iterate (hx : r.shift^[n] x = 0#w) : r.idle^[n] x = r.feed 0#w (r.outs n x) := by
  rw [feed_outs, hx, BitVec.zero_xor, BitVec.xor_zero]

/-- What a message does, by the entry at it and what was there. -/
theorem feed_outs_table (hx : r.shift^[n] x = 0#w) (c : BitVec w) :
    r.feed c (r.outs n x) = r.feed 0#w (r.outs n (c ^^^ x)) ^^^ r.shift^[n] c := by
  rw [feed_outs, feed_outs, hx, shift_iterate_xor, hx, BitVec.zero_xor, BitVec.xor_zero,
    BitVec.xor_zero, BitVec.xor_assoc, BitVec.xor_self, BitVec.xor_zero]

/-- The register behind its own message. -/
theorem feed_self (hc : r.shift^[n] c = 0#w) : r.feed c (r.outs n c) = 0#w := by
  rw [feed_outs, hc, BitVec.xor_self, BitVec.xor_zero, Function.iterate_fixed r.idle_zero]

/-! ## From the highest bit on -/

/-- Shifts to the left. -/
def leading (poly : BitVec w) : ShiftRegister w where
  out := BitVec.msb
  shift x := x <<< 1
  poly := poly
  out_xor _ _ := BitVec.msb_xor
  shift_xor x y := BitVec.shiftLeft_xor_distrib x y 1

/-- The bits of a byte from the highest on. -/
def bitsDown (b : UInt8) : List Bool := (List.range 8).map fun k => b.toNat.testBit (7 - k)

variable (poly : BitVec w)

theorem leading_shift_iterate (n : ℕ) (x : BitVec w) : (leading poly).shift^[n] x = x <<< n := by
  induction n generalizing x with
  | zero => exact (BitVec.shiftLeft_zero x).symm
  | succ n ih =>
    rw [Function.iterate_succ_apply, ih, Nat.add_comm, BitVec.shiftLeft_add]
    rfl

theorem leading_outs (n : ℕ) (x : BitVec w) :
    (leading poly).outs n x = (List.range n).map x.getMsbD := by
  induction n generalizing x with
  | zero => rfl
  | succ n ih =>
    rw [outs, ih, List.range_succ_eq_map, List.map_cons, List.map_map]
    congr 1
    refine List.map_congr_left fun k _ => ?_
    change (x <<< 1).getMsbD k = x.getMsbD (k + 1)
    rw [BitVec.getMsbD_shiftLeft]

theorem getMsbD_upper {k : ℕ} (hw : 8 ≤ w) (hk : k < 8) (m : ℕ) :
    (BitVec.ofNat w (m <<< (w - 8))).getMsbD k = m.testBit (7 - k) := by
  have hpos : w - 1 - k - (w - 8) = 7 - k := by omega
  rw [BitVec.getMsbD_eq_getLsbD, BitVec.getLsbD_ofNat, Nat.testBit_shiftLeft, hpos,
    decide_eq_true (by omega : k < w), decide_eq_true (by omega : w - 1 - k < w),
    decide_eq_true (by omega : w - 8 ≤ w - 1 - k), Bool.true_and, Bool.true_and, Bool.true_and]

theorem upper_shiftLeft (hw : 8 ≤ w) (m : ℕ) : BitVec.ofNat w (m <<< (w - 8)) <<< 8 = 0#w := by
  refine BitVec.eq_of_toNat_eq ?_
  have hpow : 2 ^ (w - 8) * 2 ^ 8 = 2 ^ w := by rw [← Nat.pow_add, Nat.sub_add_cancel hw]
  rw [BitVec.toNat_shiftLeft, BitVec.toNat_ofNat, Nat.shiftLeft_eq, Nat.shiftLeft_eq,
    Nat.mod_mul_mod, Nat.mul_assoc, hpow, Nat.mul_mod_left]
  rfl

/-- A byte of the message, by the table. -/
theorem leading_byte (hw : 8 ≤ w) (c : BitVec w) (b : UInt8) :
    (leading poly).feed c (bitsDown b) =
      (leading poly).idle^[8]
        (BitVec.ofNat w ((((c.toNat >>> (w - 8)) ^^^ b.toNat) &&& 0xFF) <<< (w - 8))) ^^^
      c <<< 8 := by
  have hgone := fun m : ℕ => (leading_shift_iterate poly 8 _).trans (upper_shiftLeft hw m)
  have hbits : bitsDown b = (leading poly).outs 8 (BitVec.ofNat w (b.toNat <<< (w - 8))) := by
    rw [leading_outs]
    exact List.map_congr_left fun k hk => (getMsbD_upper hw (List.mem_range.1 hk) b.toNat).symm
  rw [hbits, feed_outs_table _ (hgone _), idle_iterate _ (hgone _), leading_shift_iterate,
    leading_outs, leading_outs]
  congr 2
  refine List.map_congr_left fun k hk => ?_
  have hk : k < 8 := List.mem_range.1 hk
  have hpos : w - 8 + (7 - k) = w - 1 - k := by omega
  rw [BitVec.getMsbD_xor, getMsbD_upper hw hk, getMsbD_upper hw hk, Nat.testBit_and,
    Nat.testBit_xor, Nat.testBit_shiftRight, hpos, BitVec.getMsbD_eq_getLsbD, BitVec.testBit_toNat,
    Nat.testBit_two_pow_sub_one (n := 8), decide_eq_true (by omega : k < w),
    decide_eq_true (by omega : 7 - k < 8), Bool.true_and, Bool.and_true]

/-! ## From the lowest bit on -/

/-- Shifts to the right. -/
def reflected (poly : BitVec w) : ShiftRegister w where
  out x := x.getLsbD 0
  shift x := x >>> 1
  poly := poly
  out_xor _ _ := BitVec.getLsbD_xor
  shift_xor x y := BitVec.ushiftRight_xor_distrib x y 1

/-- The bits of a byte from the lowest on. -/
def bitsUp (b : UInt8) : List Bool := (List.range 8).map b.toNat.testBit

theorem reflected_shift_iterate (n : ℕ) (x : BitVec w) :
    (reflected poly).shift^[n] x = x >>> n := by
  induction n generalizing x with
  | zero => exact (BitVec.ushiftRight_zero x).symm
  | succ n ih =>
    rw [Function.iterate_succ_apply, ih, Nat.add_comm, BitVec.shiftRight_add]
    rfl

theorem reflected_outs (n : ℕ) (x : BitVec w) :
    (reflected poly).outs n x = (List.range n).map x.getLsbD := by
  induction n generalizing x with
  | zero => rfl
  | succ n ih =>
    rw [outs, ih, List.range_succ_eq_map, List.map_cons, List.map_map]
    congr 1
    refine List.map_congr_left fun k _ => ?_
    change (x >>> 1).getLsbD k = x.getLsbD (k + 1)
    rw [BitVec.getLsbD_ushiftRight, Nat.add_comm]

theorem lower_ushiftRight (hw : 8 ≤ w) {m : ℕ} (hm : m < 256) : BitVec.ofNat w m >>> 8 = 0#w := by
  refine BitVec.eq_of_toNat_eq ?_
  have hpow : 2 ^ 8 ≤ 2 ^ w := Nat.pow_le_pow_right (by omega) hw
  rw [BitVec.toNat_ushiftRight, BitVec.toNat_ofNat, Nat.mod_eq_of_lt (by omega),
    Nat.shiftRight_eq_div_pow, Nat.div_eq_of_lt hm]
  rfl

theorem getLsbD_lower {k : ℕ} (hw : 8 ≤ w) (hk : k < 8) (m : ℕ) :
    (BitVec.ofNat w m).getLsbD k = m.testBit k := by
  rw [BitVec.getLsbD_ofNat, decide_eq_true (by omega : k < w), Bool.true_and]

theorem reflected_byte (hw : 8 ≤ w) (c : BitVec w) (b : UInt8) :
    (reflected poly).feed c (bitsUp b) =
      (reflected poly).idle^[8] (BitVec.ofNat w ((b.toNat ^^^ c.toNat) &&& 0xFF)) ^^^ c >>> 8 := by
  have hgone := fun (m : ℕ) (hm : m < 256) =>
    (reflected_shift_iterate poly 8 _).trans (lower_ushiftRight hw hm)
  have hbits : bitsUp b = (reflected poly).outs 8 (BitVec.ofNat w b.toNat) := by
    rw [reflected_outs]
    exact List.map_congr_left fun k hk => (getLsbD_lower hw (List.mem_range.1 hk) b.toNat).symm
  have hindex : (b.toNat ^^^ c.toNat) &&& 0xFF < 256 := Nat.and_lt_two_pow (n := 8) _ (by decide)
  rw [hbits, feed_outs_table _ (hgone _ b.toNat_lt), idle_iterate _ (hgone _ hindex),
    reflected_shift_iterate, reflected_outs, reflected_outs]
  congr 2
  refine List.map_congr_left fun k hk => ?_
  have hk : k < 8 := List.mem_range.1 hk
  rw [BitVec.getLsbD_xor, getLsbD_lower hw hk, getLsbD_lower hw hk, Nat.testBit_and,
    Nat.testBit_xor, BitVec.testBit_toNat, Nat.testBit_two_pow_sub_one (n := 8),
    decide_eq_true hk, Bool.and_true, Bool.xor_comm]

end ShiftRegister

end Mtrtk
