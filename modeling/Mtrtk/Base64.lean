import Mtrtk.Text

/-!
# Base64

`b64encode` writes three bytes as four code points of the alphabet and pads the last group.
`b64decode` is the decoder of the standard library in its lenient mode : it passes over what is
not in the alphabet, and a padding that completes a group ends it. What was encoded decodes to
itself (`b64decode_b64encode`), and all of it is printable (`mem_b64encode`).
-/

namespace Mtrtk

/-- The code point of six bits. -/
def b64char (v : ℕ) : Char :=
  if v < 26 then Char.ofNat (0x41 + v)
  else if v < 52 then Char.ofNat (0x61 + (v - 26))
  else if v < 62 then Char.ofNat (0x30 + (v - 52))
  else if v = 62 then '+'
  else '/'

/-- The six bits of a code point, if it is in the alphabet. -/
def b64value (c : Char) : Option ℕ :=
  let n := c.toNat
  if 0x41 ≤ n ∧ n ≤ 0x5A then some (n - 0x41)
  else if 0x61 ≤ n ∧ n ≤ 0x7A then some (n - 0x61 + 26)
  else if 0x30 ≤ n ∧ n ≤ 0x39 then some (n - 0x30 + 52)
  else if c = '+' then some 62
  else if c = '/' then some 63
  else none

/-- `base64.b64encode`. -/
def b64encode : List UInt8 → Str
  | [] => []
  | [a] => [b64char (a.toNat / 4), b64char (a.toNat % 4 * 16), '=', '=']
  | [a, b] =>
    [b64char (a.toNat / 4), b64char (a.toNat % 4 * 16 + b.toNat / 16), b64char (b.toNat % 16 * 4),
      '=']
  | a :: b :: c :: bytes =>
    b64char (a.toNat / 4) :: b64char (a.toNat % 4 * 16 + b.toNat / 16) ::
      b64char (b.toNat % 16 * 4 + c.toNat / 64) :: b64char (c.toNat % 64) :: b64encode bytes

/-- What is left to decode, `quad` code points into a group with the bits `left` over. -/
def b64decodeFrom (quad left pads : ℕ) : Str → Option (List UInt8)
  | [] => if quad = 0 then some [] else none
  | c :: s =>
    if c = '=' then
      if 2 ≤ quad then
        if 4 ≤ quad + (pads + 1) then some [] else b64decodeFrom quad left (pads + 1) s
      else b64decodeFrom quad left pads s
    else
      match b64value c, quad with
      | none, _ => b64decodeFrom quad left pads s
      | some v, 0 => b64decodeFrom 1 v 0 s
      | some v, 1 => (b64decodeFrom 2 (v % 16) 0 s).map (UInt8.ofNat (left * 4 + v / 16) :: ·)
      | some v, 2 => (b64decodeFrom 3 (v % 4) 0 s).map (UInt8.ofNat (left * 16 + v / 4) :: ·)
      | some v, _ => (b64decodeFrom 0 0 0 s).map (UInt8.ofNat (left * 64 + v) :: ·)

/-- `base64.b64decode`, `none` where it raises a `ValueError`. -/
def b64decode (s : Str) : Option (List UInt8) :=
  if s.all (·.toNat < 128) then b64decodeFrom 0 0 0 s else none

theorem b64value_b64char : ∀ v < 64, b64value (b64char v) = some v := by decide

theorem b64char_ne : ∀ v < 64, b64char v ≠ '=' := by decide

theorem b64char_printable : ∀ v < 64, 0x21 ≤ (b64char v).toNat ∧ (b64char v).toNat < 0x7F := by
  decide

section Group

variable {v : ℕ} (hv : v < 64) (left pads : ℕ) (s : Str)

include hv

theorem b64decodeFrom_zero :
    b64decodeFrom 0 left pads (b64char v :: s) = b64decodeFrom 1 v 0 s := by
  simp only [b64decodeFrom, if_neg (b64char_ne v hv), b64value_b64char v hv]

theorem b64decodeFrom_one : b64decodeFrom 1 left pads (b64char v :: s) =
    (b64decodeFrom 2 (v % 16) 0 s).map (UInt8.ofNat (left * 4 + v / 16) :: ·) := by
  simp only [b64decodeFrom, if_neg (b64char_ne v hv), b64value_b64char v hv]

theorem b64decodeFrom_two : b64decodeFrom 2 left pads (b64char v :: s) =
    (b64decodeFrom 3 (v % 4) 0 s).map (UInt8.ofNat (left * 16 + v / 4) :: ·) := by
  simp only [b64decodeFrom, if_neg (b64char_ne v hv), b64value_b64char v hv]

theorem b64decodeFrom_three : b64decodeFrom 3 left pads (b64char v :: s) =
    (b64decodeFrom 0 0 0 s).map (UInt8.ofNat (left * 64 + v) :: ·) := by
  simp only [b64decodeFrom, if_neg (b64char_ne v hv), b64value_b64char v hv]

end Group

theorem b64decodeFrom_pad_two (left : ℕ) : b64decodeFrom 2 left 0 ['=', '='] = some [] := rfl

theorem b64decodeFrom_pad_one (left : ℕ) : b64decodeFrom 3 left 0 ['='] = some [] := rfl

theorem ofNat_eq_self {b : UInt8} {n : ℕ} (h : n = b.toNat) : UInt8.ofNat n = b := by
  rw [h, UInt8.ofNat_toNat]

theorem b64decodeFrom_b64encode : ∀ bytes : List UInt8,
    b64decodeFrom 0 0 0 (b64encode bytes) = some bytes
  | [] => rfl
  | [a] => by
    have ha := a.toNat_lt
    rw [b64encode, b64decodeFrom_zero (by omega), b64decodeFrom_one (by omega),
      b64decodeFrom_pad_two, Option.map_some, ofNat_eq_self (b := a) (by omega)]
  | [a, b] => by
    have ha := a.toNat_lt
    have hb := b.toNat_lt
    rw [b64encode, b64decodeFrom_zero (by omega), b64decodeFrom_one (by omega),
      b64decodeFrom_two (by omega), b64decodeFrom_pad_one, Option.map_some, Option.map_some,
      ofNat_eq_self (b := a) (by omega), ofNat_eq_self (b := b) (by omega)]
  | a :: b :: c :: bytes => by
    have ha := a.toNat_lt
    have hb := b.toNat_lt
    have hc := c.toNat_lt
    rw [b64encode, b64decodeFrom_zero (by omega), b64decodeFrom_one (by omega),
      b64decodeFrom_two (by omega), b64decodeFrom_three (by omega), b64decodeFrom_b64encode bytes,
      Option.map_some, Option.map_some, Option.map_some, ofNat_eq_self (b := a) (by omega),
      ofNat_eq_self (b := b) (by omega), ofNat_eq_self (b := c) (by omega)]

/-- What is written is printable ASCII. -/
theorem mem_b64encode : ∀ {bytes : List UInt8} {c : Char}, c ∈ b64encode bytes →
    0x21 ≤ c.toNat ∧ c.toNat < 0x7F
  | [], c, h => by simp [b64encode] at h
  | [a], c, h => by
    have ha := a.toNat_lt
    simp only [b64encode, List.mem_cons, List.not_mem_nil, or_false] at h
    obtain rfl | rfl | rfl | rfl := h
    · exact b64char_printable _ (by omega)
    · exact b64char_printable _ (by omega)
    · decide
    · decide
  | [a, b], c, h => by
    have ha := a.toNat_lt
    have hb := b.toNat_lt
    simp only [b64encode, List.mem_cons, List.not_mem_nil, or_false] at h
    obtain rfl | rfl | rfl | rfl := h
    · exact b64char_printable _ (by omega)
    · exact b64char_printable _ (by omega)
    · exact b64char_printable _ (by omega)
    · decide
  | a :: b :: d :: bytes, c, h => by
    have ha := a.toNat_lt
    have hb := b.toNat_lt
    have hd := d.toNat_lt
    simp only [b64encode, List.mem_cons] at h
    obtain rfl | rfl | rfl | rfl | h := h
    · exact b64char_printable _ (by omega)
    · exact b64char_printable _ (by omega)
    · exact b64char_printable _ (by omega)
    · exact b64char_printable _ (by omega)
    · exact mem_b64encode h

theorem b64decode_b64encode (bytes : List UInt8) : b64decode (b64encode bytes) = some bytes := by
  have hascii : (b64encode bytes).all (·.toNat < 128) = true :=
    List.all_eq_true.2 fun c hc => decide_eq_true (by have := mem_b64encode hc; omega)
  rw [b64decode, if_pos hascii, b64decodeFrom_b64encode]

end Mtrtk
