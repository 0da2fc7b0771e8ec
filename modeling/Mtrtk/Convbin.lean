import Mtrtk.Alerts
import Mtrtk.Text

/-!
# Header fields for `convbin`

`rinex/convbin.py` : `_header_args` writes the header fields as command line arguments. Some
arguments hold several fields with `/` between them, which `convbin` takes apart with `strtok`. A
`strtok` skips what is empty, so that an empty field would move those after it one to the left.

`strtok_joined` says which lists `strtok` gives back. `strtok_partsValue` is that of `_parts`, for
which each part has to be of printable ASCII without `/` and never empty (`SlotText`).
-/

namespace Mtrtk

/-! ## `strtok` -/

/-- The pieces `strtok` gives at a delimiter, one call after the other : what is empty is
skipped. -/
def strtok (sep : Char) (s : Str) : List Str := (split [sep] s).filter (· ≠ [])

/-- `sep.join(pieces)` is taken apart again where no piece has the delimiter in it. -/
theorem split_joined {sep : Char} {pieces : List Str} (hne : pieces ≠ [])
    (h : ∀ p ∈ pieces, sep ∉ p) : split [sep] ([sep].intercalate pieces) = pieces := by
  induction pieces with
  | nil => exact absurd rfl hne
  | cons p pieces ih =>
    obtain ⟨hp, hpieces⟩ := List.forall_mem_cons.1 h
    rcases pieces with _ | ⟨q, pieces⟩
    · rw [List.intercalate_singleton, split_of_notMem hp]
    · rw [List.intercalate_cons_cons, List.append_assoc, split_append hp,
        ih (List.cons_ne_nil q pieces) hpieces]

theorem strtok_joined {sep : Char} {pieces : List Str} (hne : pieces ≠ [])
    (h : ∀ p ∈ pieces, sep ∉ p ∧ p ≠ []) : strtok sep ([sep].intercalate pieces) = pieces := by
  rw [strtok, split_joined hne fun p hp => (h p hp).1]
  exact List.filter_eq_self.2 fun p hp => by simpa using (h p hp).2

/-! ## A part -/

/-- `" " <= ch <= "~"`. -/
def isPrintable (c : Char) : Bool := 0x20 ≤ c.toNat && c.toNat ≤ 0x7E

/-- A code point of a header value, as `_fit` takes it. -/
def fitChar (c : Char) : Char := if isPrintable c then c else if isWhite c then ' ' else '?'

/-- `_fit`. -/
def fit (value : Str) (width : ℕ) : Str :=
  ((strip (value.map fitChar)).take width).rdropWhile isWhite

/-- `part.replace("/", "-")`. -/
def dashed (part : Str) : Str := part.map fun c => if c = '/' then '-' else c

/-- `part.replace("/", "-") or " "`. -/
def slot (part : Str) : Str := if dashed part = [] then [' '] else dashed part

/-- `_parts`. -/
def partsValue (parts : List (Str × ℕ)) : Option Str :=
  match parts.map fun p => fit p.1 p.2 with
  | [part] => if part = [] then none else some part
  | fitted => if fitted.all (· = []) then none else some (['/'].intercalate (fitted.map slot))

/-- What a field of a header may hold : printable ASCII of at most its width, without `/`. -/
structure SlotText (width : ℕ) (text : Str) : Prop where
  printable : ∀ c ∈ text, isPrintable c = true
  noSlash : '/' ∉ text
  short : text.length ≤ width

theorem isPrintable_fitChar (c : Char) : isPrintable (fitChar c) = true := by
  unfold fitChar
  split
  · assumption
  · split <;> rfl

theorem isWhite_fitChar (c : Char) : isWhite (fitChar c) = isWhite c := by
  unfold fitChar
  split
  · rfl
  · split
    · next h => exact h.symm
    · next h => rw [Bool.eq_false_of_not_eq_true h]; rfl

theorem fit_subset (value : Str) (width : ℕ) : fit value width ⊆ value.map fitChar := by
  intro c hc
  have hstrip := List.mem_of_mem_take ((List.rdropWhile_prefix _ _).subset hc)
  exact (List.dropWhile_suffix _).subset ((List.rdropWhile_prefix _ _).subset hstrip)

theorem length_fit_le (value : Str) (width : ℕ) : (fit value width).length ≤ width :=
  ((List.rdropWhile_prefix _ _).length_le).trans (List.length_take_le _ _)

theorem rdropWhile_cons {p : Char → Bool} {c : Char} (hc : p c = false) (s : Str) :
    ∃ t, (c :: s).rdropWhile p = c :: t := by
  have hprefix := List.rdropWhile_prefix p (c :: s)
  rcases h : (c :: s).rdropWhile p with _ | ⟨d, t⟩
  · have := List.rdropWhile_eq_nil_iff.1 h c List.mem_cons_self
    simp [hc] at this
  · rw [h] at hprefix
    exact ⟨t, by rw [(List.cons_prefix_cons.1 hprefix).1]⟩

/-- A value that is not blank keeps its first code point that is not. -/
theorem fit_eq_nil_iff {width : ℕ} (hwidth : 0 < width) (value : Str) :
    fit value width = [] ↔ IsBlank value := by
  have hblank : IsBlank value ↔ ∀ c ∈ value.map fitChar, isWhite c = true := by
    simp [IsBlank, isWhite_fitChar]
  rw [hblank, ← List.dropWhile_eq_nil_iff, fit, strip]
  rcases hdrop : (value.map fitChar).dropWhile isWhite with _ | ⟨c, s⟩
  · simp
  · have hc : isWhite c = false := by
      have := List.head?_dropWhile_not isWhite (value.map fitChar)
      simpa [hdrop] using this
    obtain ⟨t, ht⟩ := rdropWhile_cons hc s
    obtain ⟨n, rfl⟩ : ∃ n, width = n + 1 := ⟨width - 1, by omega⟩
    obtain ⟨t', ht'⟩ := rdropWhile_cons hc (t.take n)
    simp [ht, ht']

theorem slot_eq (part : Str) : slot part = if part = [] then [' '] else dashed part := by
  simp [slot, dashed]

/-- What `_parts` puts in the place of a part, `convbin` can hold. -/
theorem slotText_slot {width : ℕ} (hwidth : 0 < width) (value : Str) :
    SlotText width (slot (fit value width)) ∧ slot (fit value width) ≠ [] := by
  have hlen := length_fit_le value width
  have hprint : ∀ c ∈ fit value width, isPrintable c = true := fun c hc => by
    obtain ⟨d, -, rfl⟩ := List.mem_map.1 (fit_subset value width hc)
    exact isPrintable_fitChar d
  rw [slot_eq]
  split
  · exact ⟨⟨by simp [isPrintable], by simp, hwidth⟩, by simp⟩
  · next h =>
    refine ⟨⟨fun c hc => ?_, fun hc => ?_, by simpa [dashed] using hlen⟩, by simpa [dashed] using h⟩
    · obtain ⟨d, hd, rfl⟩ := List.mem_map.1 hc
      split
      · rfl
      · exact hprint d hd
    · obtain ⟨d, -, hslash⟩ := List.mem_map.1 hc
      split at hslash
      · simp at hslash
      · exact absurd hslash ‹_›

/-! ## The parts of an argument -/

variable {parts : List (Str × ℕ)}

theorem partsValue_many (hmany : 2 ≤ parts.length) :
    partsValue parts =
      if (parts.all fun p => fit p.1 p.2 = []) then none
      else some (['/'].intercalate (parts.map fun p => slot (fit p.1 p.2))) := by
  rcases parts with _ | ⟨p, _ | ⟨q, parts⟩⟩
  · simp at hmany
  · simp at hmany
  · change (if (((p :: q :: parts).map fun p => fit p.1 p.2).all (· = [])) then none
      else some (['/'].intercalate (((p :: q :: parts).map fun p => fit p.1 p.2).map slot))) = _
    rw [List.all_map, List.map_map]
    rfl

theorem partsValue_eq_none_iff (hwidth : ∀ p ∈ parts, 0 < p.2) :
    partsValue parts = none ↔ ∀ p ∈ parts, IsBlank p.1 := by
  have hfit : ∀ p ∈ parts, (fit p.1 p.2 = [] ↔ IsBlank p.1) := fun p hp =>
    fit_eq_nil_iff (hwidth p hp) p.1
  rcases parts with _ | ⟨p, _ | ⟨q, parts⟩⟩
  · simp [partsValue]
  · simp [partsValue, hfit p List.mem_cons_self]
  · rw [partsValue_many (by simp)]
    simp only [ite_eq_left_iff, List.all_eq_true, decide_eq_true_eq, reduceCtorEq, imp_false,
      not_not]
    exact forall₂_congr hfit

/-- The parts come back out of `strtok`, each in its own place. -/
theorem strtok_partsValue {value : Str} (hwidth : ∀ p ∈ parts, 0 < p.2)
    (hmany : 2 ≤ parts.length) (h : partsValue parts = some value) :
    strtok '/' value = parts.map fun p => slot (fit p.1 p.2) := by
  rw [partsValue_many hmany] at h
  split at h
  · cases h
  · cases h
    refine strtok_joined (by simpa using List.ne_nil_of_length_pos (by omega)) fun s hs => ?_
    obtain ⟨p, hp, rfl⟩ := List.mem_map.1 hs
    obtain ⟨htext, hne⟩ := slotText_slot (hwidth p hp) p.1
    exact ⟨htext.noSlash, hne⟩

/-! ## The arguments -/

/-- `MARKER_WIDTH`. -/
def markerWidth : ℕ := 60

/-- `FIELD_WIDTH`. -/
def fieldWidth : ℕ := 20

/-- `AGENCY_WIDTH`. -/
def agencyWidth : ℕ := 31

/-- `COMMENT_WIDTH`. -/
def commentWidth : ℕ := 60

/-- `RinexHeader`. -/
structure RinexHeader where
  markerName : Str
  observer : Str
  agency : Str
  receiverVersion : Str
  markerNumber : Str := "00001".toList
  markerType : Str := "GEODETIC".toList
  receiverNumber : Str := "0".toList
  receiverType : Str := "u-blox ZED-F9P".toList
  antennaNumber : Str := "0".toList
  antennaType : Str := "NONE".toList
  approxXyz : Option (ℚ × ℚ × ℚ) := none
  deltaHen : ℚ × ℚ × ℚ := (0, 0, 0)
  comment : Option Str := none

/-- The arguments of `_header_args` with their parts. -/
def headerFlags (h : RinexHeader) : List (String × List (Str × ℕ)) :=
  [("-hm", [(h.markerName, markerWidth)]),
    ("-hn", [(h.markerNumber, fieldWidth)]),
    ("-ht", [(h.markerType, fieldWidth)]),
    ("-ho", [(h.observer, fieldWidth), (h.agency, agencyWidth)]),
    ("-hr", [(h.receiverNumber, fieldWidth), (h.receiverType, fieldWidth),
      (h.receiverVersion, fieldWidth)]),
    ("-ha", [(h.antennaNumber, fieldWidth), (h.antennaType, fieldWidth)])]

/-- A flag and its value, or nothing. -/
def flagArgs (flag : String) (parts : List (Str × ℕ)) : List Str :=
  match partsValue parts with
  | some value => [flag.toList, value]
  | none => []

/-- `"/".join(f"{v:.4f}" for v in values)`. -/
def tripleText (values : ℚ × ℚ × ℚ) : Str :=
  ['/'].intercalate ([values.1, values.2.1, values.2.2].map fun v => (fixedText 4 v).toList)

/-- `_header_args`. -/
def headerArgs (h : RinexHeader) : List Str :=
  (headerFlags h).flatMap (fun f => flagArgs f.1 f.2) ++
    (match h.approxXyz with
      | some xyz => ["-hp".toList, tripleText xyz]
      | none => []) ++
    ["-hd".toList, tripleText h.deltaHen] ++
    flagArgs "-hc" [(h.comment.getD [], commentWidth)]

theorem width_pos (h : RinexHeader) {flag : String} {parts : List (Str × ℕ)}
    (hflag : (flag, parts) ∈ headerFlags h) : ∀ p ∈ parts, 0 < p.2 := by
  simp only [headerFlags, List.mem_cons, Prod.mk.injEq, List.not_mem_nil, or_false] at hflag
  rcases hflag with ⟨-, rfl⟩ | ⟨-, rfl⟩ | ⟨-, rfl⟩ | ⟨-, rfl⟩ | ⟨-, rfl⟩ | ⟨-, rfl⟩ <;>
    simp [markerWidth, fieldWidth, agencyWidth]

/-- What is given for a flag stands in the arguments as it is. -/
theorem flagArgs_within (h : RinexHeader) {flag : String} {parts : List (Str × ℕ)}
    (hflag : (flag, parts) ∈ headerFlags h) : flagArgs flag parts <:+: headerArgs h := by
  obtain ⟨before, after, hsplit⟩ := List.append_of_mem hflag
  rw [headerArgs, hsplit, List.flatMap_append, List.flatMap_cons]
  simp only [List.append_assoc]
  exact List.infix_append' _ _ _

/-- Every field of the header stays in its slot : of an argument with several parts `strtok` gives
one piece for each part, in order, the part as it fits with `-` for `/` or one blank, and each
piece can stand in its field. An argument is left out where its parts are all blank. -/
theorem headerArgs_slots (h : RinexHeader) {flag : String} {parts : List (Str × ℕ)}
    (hflag : (flag, parts) ∈ headerFlags h) (hmany : 2 ≤ parts.length) :
    flagArgs flag parts <:+: headerArgs h ∧
      (flagArgs flag parts = [] ↔ ∀ p ∈ parts, IsBlank p.1) ∧
      ((∃ p ∈ parts, ¬IsBlank p.1) →
        ∃ value, flagArgs flag parts = [flag.toList, value] ∧
          strtok '/' value = parts.map (fun p => slot (fit p.1 p.2)) ∧
          ∀ p ∈ parts, SlotText p.2 (slot (fit p.1 p.2)) ∧
            (IsBlank p.1 ∧ slot (fit p.1 p.2) = [' '] ∨
              ¬IsBlank p.1 ∧ slot (fit p.1 p.2) = dashed (fit p.1 p.2))) := by
  have hwidth := width_pos h hflag
  have hnone := partsValue_eq_none_iff hwidth
  rcases hvalue : partsValue parts with _ | value
  · have hblank := hnone.1 hvalue
    refine ⟨flagArgs_within h hflag, by simpa [flagArgs, hvalue] using hblank,
      fun ⟨p, hp, hp'⟩ => ?_⟩
    exact absurd (hblank p hp) hp'
  · have hsome : flagArgs flag parts = [flag.toList, value] := by rw [flagArgs, hvalue]
    refine ⟨flagArgs_within h hflag, ?_, fun _ =>
      ⟨value, hsome, strtok_partsValue hwidth hmany hvalue, fun p hp => ?_⟩⟩
    · rw [hsome, ← hnone, hvalue]
      simp
    · have hfit := fit_eq_nil_iff (hwidth p hp) p.1
      refine ⟨(slotText_slot (hwidth p hp) p.1).1, ?_⟩
      rw [slot_eq, ← hfit]
      by_cases hp' : fit p.1 p.2 = []
      · exact .inl ⟨hp', if_pos hp'⟩
      · exact .inr ⟨hp', if_neg hp'⟩

/-- With a blank agency the observer stays in its field, and the agency's field is a blank. -/
theorem headerArgs_slots_agency :
    ∃ value, flagArgs "-ho" [("A/B".toList, fieldWidth), ("\t".toList, agencyWidth)] =
        ["-ho".toList, value] ∧ strtok '/' value = ["A-B".toList, " ".toList] := by
  have hargs := @headerArgs_slots
    { markerName := [], observer := "A/B".toList, agency := "\t".toList, receiverVersion := [] }
    "-ho" [("A/B".toList, fieldWidth), ("\t".toList, agencyWidth)] (by simp [headerFlags])
    (by decide)
  obtain ⟨value, hvalue, hpieces, -⟩ := hargs.2.2 ⟨("A/B".toList, fieldWidth), by simp, fun h =>
    absurd (h 'A' (by simp)) (by decide)⟩
  exact ⟨value, hvalue, hpieces⟩

end Mtrtk
