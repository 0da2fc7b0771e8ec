import Mathlib.Data.List.DropRight
import Mathlib.Tactic.Common

/-!
# Text and its bytes

A `str` is the list of its code points. `encode` and `decodeUtf8` are UTF-8, `decodeLatin1` reads
one code point off each byte; `split` is `str.split` at a separator, `cut` the two parts at
the first of a code point, `strip` takes blanks off both ends.

What is encoded decodes to what it was (`decodeUtf8_encode`). Read as latin-1 it is the same
text as long as it is ASCII (`decodeLatin1_encode_of_ascii`), and it has no ASCII code
point that was not there before (`mem_of_mem_decodeLatin1_encode`).
-/

namespace Mtrtk

/-- A `str`. -/
abbrev Str := List Char

/-- `str.encode()`. -/
def encode (s : Str) : List UInt8 := s.flatMap String.utf8EncodeChar

/-- `bytes.decode("utf-8")`. -/
def decodeUtf8 (bytes : List UInt8) : Option Str := bytes.toByteArray.utf8Decode?.map Array.toList

/-- `bytes.decode("latin-1")`. -/
def decodeLatin1 (bytes : List UInt8) : Str := bytes.map fun b => Char.ofNat b.toNat

@[simp] theorem encode_append (s t : Str) : encode (s ++ t) = encode s ++ encode t :=
  List.flatMap_append

@[simp] theorem decodeLatin1_append (bytes bytes' : List UInt8) :
    decodeLatin1 (bytes ++ bytes') = decodeLatin1 bytes ++ decodeLatin1 bytes' :=
  List.map_append

theorem decodeUtf8_encode (s : Str) : decodeUtf8 (encode s) = some s := by
  have h : (encode s).toByteArray = s.utf8Encode := rfl
  rw [decodeUtf8, h, List.utf8Decode?_utf8Encode]
  rfl

theorem encode_injective : Function.Injective encode := fun s t h => by
  simpa [decodeUtf8_encode] using congrArg decodeUtf8 h

/-- The byte of an ASCII code point; of another one no byte is ASCII. -/
theorem utf8EncodeChar_cases (c : Char) :
    (c.toNat < 128 ∧ String.utf8EncodeChar c = [UInt8.ofNat c.toNat]) ∨
      128 ≤ c.toNat ∧ ∀ b ∈ String.utf8EncodeChar c, 128 ≤ b.toNat := by
  have hc : c.toNat = c.val.toNat := rfl
  simp only [String.utf8EncodeChar, hc]
  split
  · next h => exact .inl ⟨by omega, rfl⟩
  · refine .inr ⟨by omega, ?_⟩
    split
    · simp only [List.forall_mem_cons, UInt8.toNat_ofNat', List.not_mem_nil, false_implies,
        implies_true, and_true]
      omega
    · split <;>
      · simp only [List.forall_mem_cons, UInt8.toNat_ofNat', List.not_mem_nil, false_implies,
          implies_true, and_true]
        omega

theorem toNat_ofNat_of_lt {n : ℕ} (h : n < 256) : (Char.ofNat n).toNat = n := by
  have hvalid : n.isValidChar := .inl (by omega)
  rw [Char.ofNat, dif_pos hvalid]
  rfl

/-- Bytes read as latin-1 have no ASCII code point that the text did not have. -/
theorem mem_of_mem_decodeLatin1_encode {c : Char} {s : Str} (hc : c.toNat < 128)
    (h : c ∈ decodeLatin1 (encode s)) : c ∈ s := by
  obtain ⟨b, hb, rfl⟩ := List.mem_map.1 h
  obtain ⟨d, hd, hbd⟩ := List.mem_flatMap.1 hb
  rw [toNat_ofNat_of_lt b.toNat_lt] at hc
  obtain ⟨hascii, heq⟩ | ⟨-, hhigh⟩ := utf8EncodeChar_cases d
  · rw [heq, List.mem_singleton] at hbd
    have hbyte : b.toNat = d.toNat := by
      rw [hbd, UInt8.toNat_ofNat']
      omega
    rwa [hbyte, Char.ofNat_toNat]
  · exact absurd (hhigh b hbd) (by omega)

/-- ASCII text reads the same as latin-1. -/
theorem decodeLatin1_encode_of_ascii {s : Str} (h : ∀ c ∈ s, c.toNat < 128) :
    decodeLatin1 (encode s) = s := by
  induction s with
  | nil => rfl
  | cons c s ih =>
    obtain ⟨hc, hs⟩ := List.forall_mem_cons.1 h
    rw [← List.singleton_append, encode_append, decodeLatin1_append, ih hs]
    congr 1
    obtain ⟨-, heq⟩ | ⟨hhigh, -⟩ := utf8EncodeChar_cases c
    · have hbyte : (UInt8.ofNat c.toNat).toNat = c.toNat := by
        rw [UInt8.toNat_ofNat']
        omega
      simp [encode, heq, decodeLatin1, hbyte]
    · omega

/-! ## Separators -/

section Split

variable {α : Type*} [DecidableEq α]

/-- `split` of what is left, of which the first `skip` belong to a separator. -/
def splitFrom (sep : List α) : ℕ → List α → List (List α)
  | _, [] => [[]]
  | skip + 1, _ :: s => splitFrom sep skip s
  | 0, x :: s =>
    if sep.isPrefixOf (x :: s) then [] :: splitFrom sep (sep.length - 1) s
    else (splitFrom sep 0 s).modifyHead (x :: ·)

/-- `str.split(sep)`. -/
def split (sep s : List α) : List (List α) := splitFrom sep 0 s

/-- What comes before and after the first `x`, if there is one. -/
def cut (x : α) (s : List α) : Option (List α × List α) :=
  if x ∈ s then some (s.takeWhile (· ≠ x), (s.dropWhile (· ≠ x)).tail) else none

/-- What comes before and after the last `x`, if there is one. -/
def cutLast (x : α) (s : List α) : Option (List α × List α) :=
  (cut x s.reverse).map fun parts => (parts.2.reverse, parts.1.reverse)

variable {sep : List α} {x : α} {s a b : List α}

theorem splitFrom_skip (sep t s : List α) :
    splitFrom sep t.length (t ++ s) = splitFrom sep 0 s := by
  induction t with
  | nil => rfl
  | cons x t ih => exact ih

/-- Nothing to split at. -/
theorem split_of_notMem (h : x ∉ s) : split (x :: sep) s = [s] := by
  induction s with
  | nil => rfl
  | cons y s ih =>
    obtain ⟨hy, hs⟩ := not_or.1 (List.mem_cons.not.1 h)
    have hne : (x == y) = false := beq_false_of_ne hy
    have hs' := ih hs
    rw [split] at hs' ⊢
    simp [splitFrom, List.isPrefixOf, hne, hs']

/-- The first piece. -/
theorem split_append (h : x ∉ a) :
    split (x :: sep) (a ++ (x :: sep ++ s)) = a :: split (x :: sep) s := by
  induction a with
  | nil =>
    rw [List.nil_append, split, List.cons_append, splitFrom, if_pos (by simp),
      List.length_cons, Nat.add_sub_cancel, splitFrom_skip, split]
  | cons y a ih =>
    obtain ⟨hy, ha⟩ := not_or.1 (List.mem_cons.not.1 h)
    have hne : (x == y) = false := beq_false_of_ne hy
    have ha' := ih ha
    rw [split] at ha' ⊢
    rw [List.cons_append, splitFrom, if_neg (by simp [List.isPrefixOf, hne]), ha']
    rfl

/-- Lines that end with the separator are split again. -/
theorem split_flatMap {pieces : List (List α)} (h : ∀ p ∈ pieces, x ∉ p) :
    split (x :: sep) (pieces.flatMap (· ++ x :: sep) ++ s) = pieces ++ split (x :: sep) s := by
  induction pieces with
  | nil => rfl
  | cons p pieces ih =>
    obtain ⟨hp, hpieces⟩ := List.forall_mem_cons.1 h
    rw [List.flatMap_cons, List.append_assoc, List.append_assoc, split_append hp, ih hpieces,
      List.cons_append]

theorem cut_append (h : x ∉ a) : cut x (a ++ x :: b) = some (a, b) := by
  have hall : ∀ y ∈ a, (decide (y ≠ x)) = true := fun y hy => by
    simpa using fun hyx : y = x => h (hyx ▸ hy)
  rw [cut, if_pos (by simp), List.takeWhile_append_of_pos hall, List.dropWhile_append_of_pos hall]
  simp

theorem eq_of_cut (h : cut x s = some (a, b)) : s = a ++ x :: b := by
  unfold cut at h
  split at h
  · next hmem =>
    simp only [Option.some.injEq, Prod.mk.injEq] at h
    obtain ⟨rfl, rfl⟩ := h
    rcases hdrop : s.dropWhile (· ≠ x) with _ | ⟨y, t⟩
    · have := List.dropWhile_eq_nil_iff.1 hdrop x hmem
      simp at this
    · have hy : y = x := by
        have := List.head?_dropWhile_not (· ≠ x) s
        rw [hdrop] at this
        simpa using this
      rw [← hy, List.tail_cons, hy, ← hy, ← hdrop, hy, List.takeWhile_append_dropWhile]
  · cases h

end Split

/-- `sep.join(lines)`, and the separator once more. -/
theorem intercalate_append {α : Type*} (sep : List α) {lines : List (List α)} (h : lines ≠ []) :
    sep.intercalate lines ++ sep = lines.flatMap (· ++ sep) := by
  induction lines with
  | nil => exact absurd rfl h
  | cons l lines ih =>
    rcases lines with _ | ⟨l', lines⟩
    · simp [List.intercalate]
    · have := ih (by simp)
      simp only [List.intercalate, List.flatten_cons, List.intersperse_cons_cons,
        List.flatMap_cons] at this ⊢
      rw [List.append_assoc, List.append_assoc, this, List.append_assoc, List.append_assoc]

/-- `needle in s`. -/
def occursIn (needle s : Str) : Bool := s.tails.any needle.isPrefixOf

/-! ## Blanks and case -/

/-- `str.isspace`, of one code point. -/
def isWhite (c : Char) : Bool :=
  let n := c.toNat
  (0x09 ≤ n && n ≤ 0x0D) || (0x1C ≤ n && n ≤ 0x20) || n = 0x85 || n = 0xA0 || n = 0x1680 ||
    (0x2000 ≤ n && n ≤ 0x200A) || n = 0x2028 || n = 0x2029 || n = 0x202F || n = 0x205F || n = 0x3000

/-- Nothing but blanks. -/
def IsBlank (s : Str) : Prop := ∀ c ∈ s, isWhite c = true

/-- `str.strip()`. -/
def strip (s : Str) : Str := (s.dropWhile isWhite).rdropWhile isWhite

/-- `str.lower()`, of a code point that latin-1 has. -/
def lowerChar (c : Char) : Char :=
  let n := c.toNat
  if (0x41 ≤ n ∧ n ≤ 0x5A) ∨ (0xC0 ≤ n ∧ n ≤ 0xDE ∧ n ≠ 0xD7) then Char.ofNat (n + 32) else c

/-- `str.lower()`. -/
def lower (s : Str) : Str := s.map lowerChar

/-- `str.upper()`, of a code point that latin-1 has. -/
def upperChar (c : Char) : Str :=
  let n := c.toNat
  if n = 0xB5 then [Char.ofNat 0x39C]
  else if n = 0xDF then ['S', 'S']
  else if n = 0xFF then [Char.ofNat 0x178]
  else if (0x61 ≤ n ∧ n ≤ 0x7A) ∨ (0xE0 ≤ n ∧ n ≠ 0xF7) then [Char.ofNat (n - 32)]
  else [c]

/-- `str.upper()`. -/
def upper (s : Str) : Str := s.flatMap upperChar

end Mtrtk
