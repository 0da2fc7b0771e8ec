import Mathlib.Data.List.DropRight
import Mathlib.Data.Nat.Digits.Lemmas
import Mtrtk.Frames

/-!
# Hexadecimal numbers in bytes

What Python's `f"{n:X}"` writes, and what its `int(text, 16)` reads of bytes : blanks around the
number, a sign, `0x` and underscores between the digits are taken. `parseInt_formatHex` : it reads
back what was written.
-/

namespace Mtrtk

/-- A digit of `X`. -/
def upperHexDigit (d : ℕ) : UInt8 := UInt8.ofNat (if d < 10 then 0x30 + d else 0x37 + d)

/-- `f"{n:X}"`. -/
def formatHex (n : ℕ) : List UInt8 :=
  if n = 0 then [0x30] else (Nat.digits 16 n).reverse.map upperHexDigit

/-- `bytes.strip()`. -/
def stripBytes (bytes : List UInt8) : List UInt8 := (bytes.dropWhile isSpace).rdropWhile isSpace

/-- What `int` reads of the digits behind `n`. Underscores stand alone, and between digits. -/
def hexDigits : ℕ → Bool → List UInt8 → Option ℕ
  | n, underscore, [] => if underscore then none else some n
  | n, underscore, b :: rest =>
    if b = 0x5F then if underscore then none else hexDigits n true rest
    else (hexDigit b).bind fun d => hexDigits (16 * n + d) false rest

/-- The sign, if there is one. -/
def dropSign (text : List UInt8) : List UInt8 :=
  if text.head? = some 0x2B ∨ text.head? = some 0x2D then text.tail else text

/-- The `0x`, if it is there, and an underscore behind it. -/
def dropHexPrefix (text : List UInt8) : List UInt8 :=
  if text.head? = some 0x30 ∧ (text[1]? = some 0x78 ∨ text[1]? = some 0x58) then
    if text[2]? = some 0x5F then text.drop 3 else text.drop 2
  else text

/-- `int(text, 16)`, `none` for its `ValueError`. -/
def parseInt (text : List UInt8) : Option ℤ :=
  let text := stripBytes text
  (hexDigits 0 true (dropHexPrefix (dropSign text))).map fun n : ℕ =>
    if text.head? = some 0x2D then -(n : ℤ) else n

/-! ## What is read back -/

theorem hexDigit_upperHexDigit {d : ℕ} (h : d < 16) : hexDigit (upperHexDigit d) = some d := by
  have key : ∀ d < 16, hexDigit (upperHexDigit d) = some d := by decide
  exact key d h

theorem upperHexDigit_ne {d : ℕ} (h : d < 16) : upperHexDigit d ≠ 0x5F := by
  have key : ∀ d < 16, upperHexDigit d ≠ 0x5F := by decide
  exact key d h

theorem hexDigits_map {ds : List ℕ} (h : ∀ d ∈ ds, d < 16) (n : ℕ) :
    hexDigits n false (ds.map upperHexDigit) = some (ds.foldl (fun m d => 16 * m + d) n) := by
  induction ds generalizing n with
  | nil => rfl
  | cons d ds ih =>
    obtain ⟨hd, hds⟩ := List.forall_mem_cons.1 h
    rw [List.map_cons, hexDigits, if_neg (upperHexDigit_ne hd), hexDigit_upperHexDigit hd,
      Option.bind_some, ih hds, List.foldl_cons]

/-- The first digit may be one. -/
theorem hexDigits_first {b : UInt8} {bytes : List UInt8} (h : b ≠ 0x5F) (n : ℕ) (u : Bool) :
    hexDigits n u (b :: bytes) = hexDigits n false (b :: bytes) := by
  rw [hexDigits, hexDigits, if_neg h, if_neg h]

theorem digits_lt {n d : ℕ} (h : d ∈ (Nat.digits 16 n).reverse) : d < 16 :=
  Nat.digits_lt_base (by decide) (List.mem_reverse.1 h)

theorem foldl_digits (n : ℕ) :
    (Nat.digits 16 n).reverse.foldl (fun m d => 16 * m + d) 0 = n := by
  have h : (Nat.digits 16 n).foldr (fun d m => d + 16 * m) 0 = n := by
    simpa [Nat.ofDigits_eq_foldr] using Nat.ofDigits_digits 16 n
  rw [List.foldl_reverse]
  simpa [Nat.add_comm] using h

/-- What is written consists of digits. -/
theorem mem_formatHex {n : ℕ} {b : UInt8} (h : b ∈ formatHex n) :
    ∃ d < 16, b = upperHexDigit d := by
  rw [formatHex] at h
  split at h
  · exact ⟨0, by decide, List.mem_singleton.1 h⟩
  · obtain ⟨d, hd, rfl⟩ := List.mem_map.1 h
    exact ⟨d, digits_lt hd, rfl⟩

theorem formatHex_ne_nil (n : ℕ) : formatHex n ≠ [] := by
  rw [formatHex]
  split
  · simp
  · next h => simpa [Nat.digits_eq_nil_iff_eq_zero] using h

theorem hexDigits_formatHex (n : ℕ) : hexDigits 0 true (formatHex n) = some n := by
  have hfalse : hexDigits 0 true (formatHex n) = hexDigits 0 false (formatHex n) := by
    obtain ⟨b, bytes, heq⟩ := List.exists_cons_of_ne_nil (formatHex_ne_nil n)
    obtain ⟨d, hd, hb⟩ := mem_formatHex (n := n) (b := b) (by simp [heq])
    rw [heq, hexDigits_first (hb ▸ upperHexDigit_ne hd)]
  rw [hfalse, formatHex]
  split
  · next h => rw [h]; rfl
  · rw [hexDigits_map fun d hd => digits_lt hd, foldl_digits]

/-- No digit is a blank, a sign, the letter of the prefix or a semicolon. -/
theorem upperHexDigit_plain {d : ℕ} (h : d < 16) :
    isSpace (upperHexDigit d) = false ∧ upperHexDigit d ≠ 0x2B ∧ upperHexDigit d ≠ 0x2D ∧
      upperHexDigit d ≠ 0x78 ∧ upperHexDigit d ≠ 0x58 ∧ upperHexDigit d ≠ 0x3B ∧
      upperHexDigit d ≠ 0x0A := by
  have key : ∀ d < 16, isSpace (upperHexDigit d) = false ∧ upperHexDigit d ≠ 0x2B ∧
      upperHexDigit d ≠ 0x2D ∧ upperHexDigit d ≠ 0x78 ∧ upperHexDigit d ≠ 0x58 ∧
      upperHexDigit d ≠ 0x3B ∧ upperHexDigit d ≠ 0x0A := by decide
  exact key d h

theorem isSpace_formatHex (n : ℕ) : ∀ b ∈ formatHex n, isSpace b = false := fun b hb => by
  obtain ⟨d, hd, rfl⟩ := mem_formatHex hb
  exact (upperHexDigit_plain hd).1

/-- Bytes that are no blanks, with blanks behind them. -/
theorem stripBytes_append {bytes blanks : List UInt8} (h : ∀ b ∈ bytes, isSpace b = false)
    (hblanks : ∀ b ∈ blanks, isSpace b = true) : stripBytes (bytes ++ blanks) = bytes := by
  have hbehind : stripBytes blanks = [] := by
    rw [stripBytes, List.dropWhile_eq_nil_iff.2 (by simpa using hblanks)]
    rfl
  rcases bytes with _ | ⟨b, bytes⟩
  · exact hbehind
  · rw [stripBytes, List.cons_append, List.dropWhile_cons_of_neg (by simp [h b List.mem_cons_self]),
      ← List.cons_append, List.rdropWhile, List.reverse_append,
      List.dropWhile_append_of_pos (by simpa using hblanks)]
    obtain ⟨c, cs, hrev⟩ := List.exists_cons_of_ne_nil
      (List.reverse_ne_nil_iff.2 (List.cons_ne_nil b bytes))
    have hc : c ∈ b :: bytes := List.mem_reverse.1 (by rw [hrev]; simp)
    rw [hrev, List.dropWhile_cons_of_neg (by simp [h c hc]), ← hrev, List.reverse_reverse]

/-- Blanks behind what is written are stripped. -/
theorem stripBytes_formatHex (n : ℕ) {blanks : List UInt8} (h : ∀ b ∈ blanks, isSpace b = true) :
    stripBytes (formatHex n ++ blanks) = formatHex n :=
  stripBytes_append (isSpace_formatHex n) h

theorem formatHex_getElem? {n i : ℕ} {b : UInt8} (hb : (formatHex n)[i]? = some b) :
    b ≠ 0x2B ∧ b ≠ 0x2D ∧ b ≠ 0x78 ∧ b ≠ 0x58 := by
  obtain ⟨d, hd, rfl⟩ := mem_formatHex (List.mem_of_getElem? hb)
  exact ⟨(upperHexDigit_plain hd).2.1, (upperHexDigit_plain hd).2.2.1,
    (upperHexDigit_plain hd).2.2.2.1, (upperHexDigit_plain hd).2.2.2.2.1⟩

/-- There is no `0x` in front of what is written. -/
theorem dropHexPrefix_formatHex (n : ℕ) : dropHexPrefix (formatHex n) = formatHex n := by
  rw [dropHexPrefix, if_neg]
  rintro ⟨-, h | h⟩
  · exact (formatHex_getElem? h).2.2.1 rfl
  · exact (formatHex_getElem? h).2.2.2 rfl

theorem parseInt_formatHex (n : ℕ) : parseInt (formatHex n) = some (n : ℤ) := by
  have hstrip : stripBytes (formatHex n) = formatHex n := by
    simpa using stripBytes_formatHex n (List.forall_mem_nil _)
  have hsign : dropSign (formatHex n) = formatHex n := by
    rw [dropSign, if_neg]
    rw [List.head?_eq_getElem?]
    rintro (h | h)
    · exact (formatHex_getElem? h).1 rfl
    · exact (formatHex_getElem? h).2.1 rfl
  have hminus : (formatHex n).head? ≠ some 0x2D := by
    rw [List.head?_eq_getElem?]
    exact fun h => (formatHex_getElem? h).2.1 rfl
  simp only [parseInt, hstrip, hsign, dropHexPrefix_formatHex, hexDigits_formatHex,
    Option.map_some, if_neg hminus]

/-- With a minus in front of it. -/
theorem parseInt_neg_formatHex (n : ℕ) : parseInt (0x2D :: formatHex n) = some (-(n : ℤ)) := by
  have hspace : ∀ b ∈ 0x2D :: formatHex n, isSpace b = false :=
    List.forall_mem_cons.2 ⟨by decide, isSpace_formatHex n⟩
  have hstrip : stripBytes (0x2D :: formatHex n) = 0x2D :: formatHex n := by
    simpa using stripBytes_append hspace (List.forall_mem_nil _)
  have hsign : dropSign (0x2D :: formatHex n) = formatHex n := rfl
  simp only [parseInt, hstrip, hsign, dropHexPrefix_formatHex, hexDigits_formatHex,
    Option.map_some, List.head?_cons, if_true]

end Mtrtk
