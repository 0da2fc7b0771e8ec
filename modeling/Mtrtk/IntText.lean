import Mtrtk.NtripWire
import Mtrtk.PyNumber
import Mtrtk.TextLines

/-!
# Integers as texts

`str(n)` and `f"{n:X}"`, and what `int` reads of them. The decimal text of a number of more than
4300 digits is not written, and not read ; to the base 16 there is no such limit. Before `int` reads
a text, digits and blanks that are not ASCII become the ASCII ones.
-/

namespace Mtrtk

/-- The sign in front of the digits. -/
def signed (n : ℤ) (digits : Str) : Str := if n < 0 then '-' :: digits else digits

/-- `str(n)`. -/
def pyStr (n : ℤ) : Except PyError Str :=
  let digits := Nat.toDigits 10 n.natAbs
  if intMaxStrDigits < digits.length then .error .value else .ok (signed n digits)

/-- `f"{n:X}"`. -/
def hexText (n : ℤ) : Str := signed n (decodeLatin1 (formatHex n.natAbs))

section Read

variable [PyDigits]

/-- A code point of a number, in ASCII. -/
def asciiNumeral (c : Char) : UInt8 :=
  if c.toNat < 127 then UInt8.ofNat c.toNat
  else if isWhite c then 0x20
  else ((PyDigits.digit c).map fun d => UInt8.ofNat (0x30 + d)).getD 0x3F

/-- `int(text, 16)`. -/
def pyIntHex (text : Str) : Except PyError ℤ :=
  match parseInt (text.map asciiNumeral) with
  | some n => .ok n
  | none => .error .value

end Read

/-! ## To the base 10 -/

theorem takeSign_signed {n : ℤ} {digits : Str} (h : ∀ c ∈ digits, c.isDigit = true) :
    takeSign (signed n digits) = (decide (n < 0), digits) := by
  by_cases hn : n < 0
  · rw [signed, if_pos hn, decide_eq_true hn]
    rfl
  · rw [signed, if_neg hn, decide_eq_false hn]
    unfold takeSign
    split
    · exact absurd (h '-' List.mem_cons_self) (by decide)
    · exact absurd (h '+' List.mem_cons_self) (by decide)
    · rfl

theorem isDigit_toDigits (n : ℕ) : ∀ c ∈ Nat.toDigits 10 n, c.isDigit = true := fun _ hc =>
  Nat.isDigit_of_mem_toDigits (by decide) (by decide) hc

/-- A sign and digits are neither blanks nor underscores. -/
theorem plain_signed {n : ℤ} {digits : Str} (h : ∀ c ∈ digits, c.isDigit = true) :
    ∀ c ∈ signed n digits, isWhite c = false ∧ c ≠ '_' := by
  have hdigit : ∀ c ∈ digits, isWhite c = false ∧ c ≠ '_' := by
    intro c hc
    have hrange : 48 ≤ c.toNat ∧ c.toNat ≤ 57 := by
      simpa [Char.isDigit, UInt32.le_iff_toNat_le] using h c hc
    refine ⟨?_, ?_⟩
    · simp only [isWhite, Bool.or_eq_false_iff, Bool.and_eq_false_iff, decide_eq_false_iff_not]
      omega
    · rintro rfl
      exact absurd hrange (by decide)
  unfold signed
  split
  · exact List.forall_mem_cons.2 ⟨by decide, hdigit⟩
  · exact hdigit

/-- There are as many digits as may be. -/
theorem pyStr_eq_ok {n : ℤ} :
    (∃ s, pyStr n = .ok s) ↔ (Nat.toDigits 10 n.natAbs).length ≤ intMaxStrDigits := by
  simp only [pyStr, ← not_lt]
  split
  · next h => simp [h]
  · next h => simp [h]

section Decimal

variable [PyDigits]

theorem ungroup_eq_self {s : Str} (h : ∀ c ∈ s, c ≠ '_') (b : Bool) : ungroup b s = some s := by
  induction s generalizing b with
  | nil => rfl
  | cons c s ih =>
    obtain ⟨hc, hs⟩ := List.forall_mem_cons.1 h
    rw [ungroup, if_neg hc, ih hs]
    rfl

theorem digit_digitChar : ∀ d < 10, PyDigits.digit (Nat.digitChar d) = some d := by
  intro d hd
  have hascii : (Nat.digitChar d).toNat = 0x30 + d :=
    (by decide : ∀ d < 10, (Nat.digitChar d).toNat = 0x30 + d) d hd
  rw [PyDigits.digit_ascii _ (by omega), hascii, if_pos (by omega), Nat.add_sub_cancel_left]

/-- The digits of a number are read back. -/
theorem digitsValue_toDigits (n : ℕ) : digitsValue (Nat.toDigits 10 n) = some n := by
  induction n using Nat.strongRecOn with
  | _ n ih =>
    rw [Nat.toDigits_eq_if (by decide)]
    split
    · next hn => simp [digitsValue, digit_digitChar n hn]
    · next hn =>
      have hlast := digit_digitChar (n % 10) (Nat.mod_lt n (by decide))
      have hrest := ih (n / 10) (by omega)
      rw [digitsValue] at hrest
      rw [digitsValue, List.foldlM_append, hrest]
      simp only [Option.bind_eq_bind, Option.bind_some, List.foldlM_cons, hlast, Option.map_some,
        List.foldlM_nil, Option.pure_def]
      congr 1
      omega

theorem pyInt_of_pyStr {n : ℤ} {s : Str} (h : pyStr n = .ok s) : pyInt s = .ok n := by
  have hdigits := isDigit_toDigits n.natAbs
  have hplain := plain_signed (n := n) hdigits
  simp only [pyStr] at h
  split at h
  · cases h
  · next hlimit =>
    obtain rfl : signed n (Nat.toDigits 10 n.natAbs) = s := Except.ok.inj h
    have hvalue : (if n < 0 then -(n.natAbs : ℤ) else n.natAbs) = n := by
      split <;> omega
    rw [pyInt, EnvFile.strip_eq_self fun c hc => (hplain c hc).1,
      ungroup_eq_self fun c hc => (hplain c hc).2]
    simp only [takeSign_signed hdigits, if_neg hlimit, signedDigits, if_neg Nat.toDigits_ne_nil,
      digitsValue_toDigits, Option.bind_eq_bind, Option.bind_some, Option.pure_def, Option.map_some,
      decide_eq_true_eq, hvalue]

end Decimal

/-! ## To the base 16 -/

theorem upperHexDigit_lt {d : ℕ} (h : d < 16) : (upperHexDigit d).toNat < 127 :=
  (by decide : ∀ d < 16, (upperHexDigit d).toNat < 127) d h

/-- The bytes of a text that `int` leaves as it is. -/
theorem map_asciiNumeral [PyDigits] {bytes : List UInt8} (h : ∀ b ∈ bytes, b.toNat < 127) :
    (decodeLatin1 bytes).map asciiNumeral = bytes := by
  rw [decodeLatin1, List.map_map]
  refine (List.map_congr_left fun b hb => ?_).trans (List.map_id bytes)
  have hb := h b hb
  rw [Function.comp_apply, asciiNumeral, toNat_ofNat_of_lt (by omega), if_pos hb]
  exact UInt8.ofNat_toNat

theorem pyIntHex_hexText [PyDigits] (n : ℤ) : pyIntHex (hexText n) = .ok n := by
  have hascii : ∀ b ∈ formatHex n.natAbs, b.toNat < 127 := fun b hb => by
    obtain ⟨d, hd, rfl⟩ := mem_formatHex hb
    exact upperHexDigit_lt hd
  have hminus : asciiNumeral '-' = 0x2D := rfl
  rw [pyIntHex, hexText, signed]
  by_cases hn : n < 0
  · have hvalue : -(n.natAbs : ℤ) = n := by omega
    rw [if_pos hn, List.map_cons, hminus, map_asciiNumeral hascii, parseInt_neg_formatHex, hvalue]
  · have hvalue : (n.natAbs : ℤ) = n := by omega
    rw [if_neg hn, map_asciiNumeral hascii, parseInt_formatHex, hvalue]

end Mtrtk
