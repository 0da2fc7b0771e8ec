import Mathlib.Order.Bounds.Basic
import Mtrtk.HeaderTime

/-!
# Codes of RINEX names

`rinex/naming.py` writes a span (`duration_code`) and an interval (`period_code`) into a file name
as two digits and a unit. Both look for a unit that says it exactly, the largest first ; a span no
unit says is rounded up in the smallest that fits, an interval no unit says is refused. Floats are
exact.

`decodeCode` reads a code back. What an interval reads back as is it within `codeTolerance`, and one
is refused only when no code says it within that, except just below one second : there whole
seconds are not tried any more (`period_code_iff`).
-/

namespace Mtrtk

/-- `_UNITS`. -/
def nameUnits : List (Char × ℕ) := [('D', 86400), ('H', 3600), ('M', 60), ('S', 1)]

/-- `f"{n:02d}"`. -/
def twoDigits (n : ℕ) : Str :=
  let digits := Nat.toDigits 10 n
  List.replicate (2 - digits.length) '0' ++ digits

/-- `f"{n:02d}{unit}"`. -/
def unitCode (n : ℕ) (unit : Char) : Str := twoDigits n ++ [unit]

/-- The loop over the units in both functions : the first that says `s` exactly. -/
def exactCode (s : ℕ) : Option Str :=
  (nameUnits.find? fun u => s % u.2 = 0 ∧ s / u.2 ≤ 99).map fun u => unitCode (s / u.2) u.1

/-- `math.ceil(s / size)`. -/
def ceilUnits (s size : ℕ) : ℕ := (s + size - 1) / size

/-- The loop from the smallest unit on. -/
def roundedUpCode (s : ℕ) : Option Str :=
  (nameUnits.reverse.find? fun u => ceilUnits s u.2 ≤ 99).map fun u =>
    unitCode (ceilUnits s u.2) u.1

/-- `int(round(x))`. -/
def PyFloat.round : PyFloat → Except PyError ℤ
  | .finite q => .ok (pyRound q)
  | .infinite _ => .error .overflow
  | .nan => .error .value

/-- `duration_code`. -/
def durationCode (seconds : PyFloat) : Except PyError Str := do
  let s := (max 1 (← seconds.round)).toNat
  return ((exactCode s).orElse fun _ => roundedUpCode s).getD ['9', '9', 'D']

section Period

-- `str` of a float
variable (text : PyFloat → Str)

/-- What `period_code` does with a number, the error being the text of the `ValueError`. -/
def numberPeriodCode (seconds : ℚ) : Except Str Str :=
  let refuse (reason : String) :=
    .error ("interval ".toList ++ text (.finite seconds) ++ reason.toList)
  if seconds ≤ 0 then .ok ['0', '0', 'U']
  else if seconds < 1 then
    let cs := seconds * 100
    if |cs - pyRound cs| < 1 / 10 ^ 6 ∧ 1 ≤ pyRound cs ∧ pyRound cs ≤ 99 then
      .ok (unitCode (pyRound cs).toNat 'C')
    else refuse " s is not a whole number of centiseconds"
  else if |seconds - pyRound seconds| > 1 / 10 ^ 9 then
    refuse " s is not a whole number of seconds"
  else
    match exactCode (pyRound seconds).toNat with
    | some code => .ok code
    | none => refuse " s has no two-digit RINEX period code"

/-- `period_code`. -/
def periodCode : Option PyFloat → Except Str Str
  | none | some (.infinite true) => .ok ['0', '0', 'U']
  | some (.finite seconds) => numberPeriodCode text seconds
  | some seconds => .error ("interval ".toList ++ text seconds ++ " is not finite".toList)

end Period

/-! ## Reading a code -/

/-- What a unit is in seconds. -/
def unitSeconds (unit : Char) : Option ℚ :=
  if unit = 'C' then some (1 / 100)
  else (nameUnits.find? fun u => u.1 = unit).map fun u => (u.2 : ℚ)

/-- The digit a character is. -/
def codeDigit (c : Char) : Option ℕ := if c.isDigit then some (c.toNat - 48) else none

/-- The number times the unit. -/
def decodeCode : Str → Option ℚ
  | [a, b, unit] => do return (10 * (← codeDigit a) + (← codeDigit b) : ℕ) * (← unitSeconds unit)
  | _ => none

/-- How far from its code an interval may be. -/
def codeTolerance (code : Str) : ℚ := if code.getLast? = some 'C' then 1 / 10 ^ 8 else 1 / 10 ^ 9

/-- The code says a positive interval within its tolerance, which centiseconds have to be below. -/
def Expresses (code : Str) (seconds : ℚ) : Prop :=
  ∃ d, decodeCode code = some d ∧ 0 < d ∧
    if code.getLast? = some 'C' then |seconds - d| < codeTolerance code
    else |seconds - d| ≤ codeTolerance code

theorem twoDigits_eq : ∀ n ≤ 99,
    twoDigits n = [Nat.digitChar (n / 10), Nat.digitChar (n % 10)] := by
  decide

theorem codeDigit_digitChar : ∀ d < 10, codeDigit (Nat.digitChar d) = some d := by decide

theorem decode_unitCode {n : ℕ} (hn : n ≤ 99) {unit : Char} {size : ℚ}
    (hsize : unitSeconds unit = some size) : decodeCode (unitCode n unit) = some (n * size) := by
  have htens := codeDigit_digitChar (n / 10) (by omega)
  have hones := codeDigit_digitChar (n % 10) (by omega)
  have hvalue : 10 * (n / 10) + n % 10 = n := by omega
  simp only [unitCode, twoDigits_eq n hn, List.cons_append, List.nil_append, decodeCode, htens,
    hones, hsize, Option.bind_eq_bind, Option.bind_some, Option.pure_def, hvalue]

theorem unitSeconds_of_mem {u : Char × ℕ} (hu : u ∈ nameUnits) :
    unitSeconds u.1 = some (u.2 : ℚ) := by
  simp only [nameUnits, List.mem_cons, List.not_mem_nil, or_false] at hu
  rcases hu with rfl | rfl | rfl | rfl <;> rfl

/-! ## Spans -/

/-- What the first loop finds, which is nothing only where no unit says it. -/
theorem exactCode_spec (s : ℕ) :
    (∃ u ∈ nameUnits, s % u.2 = 0 ∧ s / u.2 ≤ 99 ∧ exactCode s = some (unitCode (s / u.2) u.1)) ∨
      exactCode s = none ∧ ∀ u ∈ nameUnits, ¬(s % u.2 = 0 ∧ s / u.2 ≤ 99) := by
  rcases h : nameUnits.find? fun u => s % u.2 = 0 ∧ s / u.2 ≤ 99 with _ | u
  · refine .inr ⟨by rw [exactCode, h]; rfl, fun u hu => ?_⟩
    simpa using List.find?_eq_none.1 h u hu
  · have hs := List.find?_some h
    simp only [decide_eq_true_eq] at hs
    exact .inl ⟨u, List.mem_of_find?_eq_some h, hs.1, hs.2, by rw [exactCode, h]; rfl⟩

theorem decode_exact {s : ℕ} {code : Str} (h : exactCode s = some code) :
    decodeCode code = some (s : ℚ) := by
  rcases exactCode_spec s with ⟨u, hu, hmod, hle, hcode⟩ | ⟨hnone, -⟩
  · obtain rfl : unitCode (s / u.2) u.1 = code := Option.some.inj (hcode.symm.trans h)
    rw [decode_unitCode hle (unitSeconds_of_mem hu), ← Nat.cast_mul,
      Nat.div_mul_cancel (Nat.dvd_of_mod_eq_zero hmod)]
  · rw [hnone] at h
    cases h

theorem ceilUnits_le {s size k : ℕ} (hsize : 0 < size) : ceilUnits s size ≤ k ↔ s ≤ k * size := by
  rw [ceilUnits, ← Nat.lt_succ_iff, Nat.div_lt_iff_lt_mul hsize, Nat.succ_mul]
  omega

/-- The least multiple of a unit from `s` on. -/
theorem isLeast_ceilUnits (s : ℕ) {size : ℕ} (hsize : 0 < size) :
    IsLeast {m | size ∣ m ∧ s ≤ m} (ceilUnits s size * size) := by
  refine ⟨⟨Nat.dvd_mul_left _ _, (ceilUnits_le hsize).1 le_rfl⟩, ?_⟩
  rintro m ⟨⟨k, rfl⟩, hm⟩
  rw [Nat.mul_comm size k] at hm ⊢
  exact Nat.mul_le_mul_right size ((ceilUnits_le hsize).2 hm)

/-- The span is said by the smallest unit it fits in. -/
def SmallestFitting (s : ℕ) (u : Char × ℕ) : Prop :=
  u ∈ nameUnits ∧ s ≤ 99 * u.2 ∧ ∀ v ∈ nameUnits, v.2 < u.2 → 99 * v.2 < s

theorem roundedUpCode_eq {s : ℕ} {u : Char × ℕ} (h : SmallestFitting s u) :
    roundedUpCode s = some (unitCode (ceilUnits s u.2) u.1) := by
  obtain ⟨hu, hfits, hleast⟩ := h
  simp only [nameUnits, List.mem_cons, List.not_mem_nil, or_false, forall_eq_or_imp, forall_eq]
    at hu hleast
  have hfind : nameUnits.reverse.find? (fun v => ceilUnits s v.2 ≤ 99) = some u := by
    rcases hu with rfl | rfl | rfl | rfl <;> simp_all [nameUnits, ceilUnits_le]
  rw [roundedUpCode, hfind]
  rfl

theorem roundedUpCode_eq_none {s : ℕ} (h : ∀ u ∈ nameUnits, 99 * u.2 < s) :
    roundedUpCode s = none := by
  rw [roundedUpCode, Option.map_eq_none_iff, List.find?_eq_none]
  intro u hu
  have hu := List.mem_reverse.1 hu
  have hsize : 0 < u.2 := (by decide : ∀ u ∈ nameUnits, 0 < u.2) u hu
  simpa [ceilUnits_le hsize] using h u hu

/-- What is written of a span of `n` seconds. -/
structure SpanLaw (n : ℕ) (code : Str) : Prop where
  exact : (∃ u ∈ nameUnits, u.2 ∣ n ∧ n / u.2 ≤ 99) → decodeCode code = some (n : ℚ)
  roundedUp : (¬∃ u ∈ nameUnits, u.2 ∣ n ∧ n / u.2 ≤ 99) → ∀ u, SmallestFitting n u →
    ∃ m : ℕ, IsLeast {m | u.2 ∣ m ∧ n ≤ m} m ∧ decodeCode code = some (m : ℚ)
  ceiling : (∀ u ∈ nameUnits, 99 * u.2 < n) → code = ['9', '9', 'D']

theorem durationCode_natCast {n : ℕ} (hn : 1 ≤ n) : durationCode (.finite n) =
    .ok (((exactCode n).orElse fun _ => roundedUpCode n).getD ['9', '9', 'D']) := by
  have hround : pyRound (n : ℚ) = n := pyRound_of_near (by simp)
  have hmax : (max 1 (n : ℤ)).toNat = n := by omega
  simp only [durationCode, PyFloat.round, hround, bind, Except.bind, hmax]
  rfl

theorem durationCode_law {n : ℕ} (hn : 1 ≤ n) :
    ∃ code, durationCode (.finite n) = .ok code ∧ SpanLaw n code := by
  refine ⟨_, durationCode_natCast hn, ?_⟩
  rcases exactCode_spec n with ⟨u, hu, hmod, hle, hcode⟩ | ⟨hnone, hnot⟩
  · have hexact : ∃ u ∈ nameUnits, u.2 ∣ n ∧ n / u.2 ≤ 99 :=
      ⟨u, hu, Nat.dvd_of_mod_eq_zero hmod, hle⟩
    refine ⟨fun _ => ?_, fun h => absurd hexact h, fun h => ?_⟩
    · rw [hcode]
      exact decode_exact hcode
    · have hmul := Nat.mul_le_mul_right u.2 hle
      rw [Nat.div_mul_cancel (Nat.dvd_of_mod_eq_zero hmod)] at hmul
      exact absurd (h u hu) (Nat.not_lt.2 hmul)
  · have hnot' : ¬∃ u ∈ nameUnits, u.2 ∣ n ∧ n / u.2 ≤ 99 := by
      rintro ⟨u, hu, hdvd, hle⟩
      exact hnot u hu ⟨Nat.mod_eq_zero_of_dvd hdvd, hle⟩
    rw [hnone]
    refine ⟨fun h => absurd h hnot', fun _ u hu => ?_, fun h => ?_⟩
    · have hsize : 0 < u.2 := (by decide : ∀ u ∈ nameUnits, 0 < u.2) u hu.1
      refine ⟨_, isLeast_ceilUnits n hsize, ?_⟩
      rw [roundedUpCode_eq hu]
      change decodeCode (unitCode _ _) = _
      rw [decode_unitCode ((ceilUnits_le hsize).2 hu.2.1) (unitSeconds_of_mem hu.1)]
      push_cast
      rfl
    · rw [roundedUpCode_eq_none h]
      rfl

/-! ## Intervals -/

theorem getLast?_unitCode (n : ℕ) (unit : Char) : (unitCode n unit).getLast? = some unit :=
  List.getLast?_concat

theorem ne_centi {u : Char × ℕ} (hu : u ∈ nameUnits) : u.1 ≠ 'C' :=
  (by decide : ∀ u ∈ nameUnits, u.1 ≠ 'C') u hu

/-- A code in centiseconds. -/
theorem expresses_centi {n : ℕ} (h1 : 1 ≤ n) (h99 : n ≤ 99) {q : ℚ} :
    Expresses (unitCode n 'C') q ↔ |q * 100 - n| < 1 / 10 ^ 6 := by
  have hdecode : decodeCode (unitCode n 'C') = some (n * (1 / 100) : ℚ) := decode_unitCode h99 rfl
  have hpos : (0 : ℚ) < n * (1 / 100) := by positivity
  have hscale : |q * 100 - n| = 100 * |q - n * (1 / 100)| := by
    rw [← abs_of_pos (by norm_num : (0 : ℚ) < 100), ← abs_mul]
    congr 1
    ring
  simp only [Expresses, hdecode, Option.some.injEq, exists_eq_left', hpos, true_and,
    getLast?_unitCode, codeTolerance, if_true, hscale]
  constructor <;> intro h <;> linarith

/-- A code of whole seconds. -/
theorem expresses_exact {s : ℕ} {code : Str} (hs : 1 ≤ s) (hcode : exactCode s = some code)
    {q : ℚ} : Expresses code q ↔ |q - s| ≤ 1 / 10 ^ 9 := by
  have hlast : code.getLast? ≠ some 'C' := by
    rcases exactCode_spec s with ⟨u, hu, -, -, h⟩ | ⟨hnone, -⟩
    · rw [← Option.some.inj (h.symm.trans hcode), getLast?_unitCode]
      simpa using ne_centi hu
    · rw [hnone] at hcode
      cases hcode
  have hpos : (0 : ℚ) < s := by exact_mod_cast hs
  simp [Expresses, decode_exact hcode, hpos, hlast, codeTolerance]

theorem codeDigit_le {c : Char} {d : ℕ} (h : codeDigit c = some d) : d ≤ 9 := by
  unfold codeDigit at h
  split at h
  · next hdigit =>
    have hrange : 48 ≤ c.toNat ∧ c.toNat ≤ 57 := by
      simpa [Char.isDigit, UInt32.le_iff_toNat_le] using hdigit
    obtain rfl : c.toNat - 48 = d := Option.some.inj h
    omega
  · cases h

/-- What a code can say : up to 99 centiseconds, or seconds that a unit says exactly. -/
theorem expresses_cases {code : Str} {q : ℚ} (h : Expresses code q) :
    (∃ n : ℕ, 1 ≤ n ∧ n ≤ 99 ∧ |q * 100 - n| < 1 / 10 ^ 6) ∨
      ∃ s : ℕ, 1 ≤ s ∧ exactCode s ≠ none ∧ |q - s| ≤ 1 / 10 ^ 9 := by
  obtain ⟨d, hdecode, hpos, hwithin⟩ := h
  obtain ⟨a, b, unit, rfl⟩ : ∃ a b unit, code = [a, b, unit] := by
    unfold decodeCode at hdecode
    split at hdecode
    · exact ⟨_, _, _, rfl⟩
    · cases hdecode
  simp only [decodeCode, Option.bind_eq_bind, Option.bind_eq_some_iff, Option.pure_def,
    Option.some.injEq] at hdecode
  obtain ⟨x, hx, y, hy, size, hsize, rfl⟩ := hdecode
  have hx := codeDigit_le hx
  have hy := codeDigit_le hy
  have hn : 1 ≤ 10 * x + y := by
    rcases Nat.eq_zero_or_pos (10 * x + y) with hzero | hn
    · rw [hzero] at hpos
      simp at hpos
    · exact hn
  by_cases hunit : unit = 'C'
  · subst hunit
    obtain rfl : 1 / 100 = size := Option.some.inj hsize
    refine .inl ⟨10 * x + y, hn, by omega, (expresses_centi hn (by omega)).1 ?_⟩
    refine ⟨_, decode_unitCode (by omega) rfl, hpos, ?_⟩
    simpa [codeTolerance, getLast?_unitCode] using hwithin
  · rw [unitSeconds, if_neg hunit] at hsize
    obtain ⟨u, hfind, rfl⟩ := Option.map_eq_some_iff.1 hsize
    have hu := List.mem_of_find?_eq_some hfind
    have hu0 : 0 < u.2 := (by decide : ∀ u ∈ nameUnits, 0 < u.2) u hu
    refine .inr ⟨(10 * x + y) * u.2, Nat.mul_pos hn hu0, fun hnone => ?_, ?_⟩
    · rcases exactCode_spec ((10 * x + y) * u.2) with ⟨v, -, -, -, hsome⟩ | ⟨-, hnot⟩
      · rw [hnone] at hsome
        cases hsome
      · refine hnot u hu ⟨Nat.mul_mod_left _ _, ?_⟩
        rw [Nat.mul_div_cancel _ hu0]
        omega
    · simpa [hunit, codeTolerance] using hwithin

/-- What is written of an interval is within its tolerance, and it is refused when no code is. -/
structure PeriodLaw (text : PyFloat → Str) (seconds : ℚ) : Prop where
  accepted : ∀ code, periodCode text (some (.finite seconds)) = .ok code → Expresses code seconds
  refused : (∃ error, periodCode text (some (.finite seconds)) = .error error) ↔
    ∀ code, ¬Expresses code seconds

variable {text : PyFloat → Str} {q : ℚ} {code : Str}

theorem periodCode_centi (h0 : 0 < q) (h1 : q < 1) :
    (∃ n : ℕ, 1 ≤ n ∧ n ≤ 99 ∧ |q * 100 - n| < 1 / 10 ^ 6 ∧
        periodCode text (some (.finite q)) = .ok (unitCode n 'C')) ∨
      (∃ error, periodCode text (some (.finite q)) = .error error) ∧
        ∀ n : ℕ, 1 ≤ n → n ≤ 99 → ¬|q * 100 - n| < 1 / 10 ^ 6 := by
  have hround : ∀ n : ℕ, |q * 100 - n| < 1 / 10 ^ 6 → pyRound (q * 100) = n := fun n hn =>
    pyRound_of_near (hn.trans (by norm_num))
  simp only [periodCode, numberPeriodCode, if_neg (not_le.2 h0), if_pos h1]
  split
  · next h =>
    obtain ⟨hnear, hlow, hhigh⟩ := h
    obtain ⟨n, hn⟩ := Int.eq_ofNat_of_zero_le (by omega : 0 ≤ pyRound (q * 100))
    rw [hn] at hnear hlow hhigh ⊢
    exact .inl ⟨n, by omega, by omega, hnear, rfl⟩
  · next h =>
    refine .inr ⟨⟨_, rfl⟩, fun n hlow hhigh hnear => h ?_⟩
    rw [hround n hnear]
    exact ⟨hnear, by omega, by omega⟩

theorem periodCode_whole (h1 : 1 ≤ q) :
    (∃ (s : ℕ) (code : Str), 1 ≤ s ∧ exactCode s = some code ∧ |q - s| ≤ 1 / 10 ^ 9 ∧
        periodCode text (some (.finite q)) = .ok code) ∨
      (∃ error, periodCode text (some (.finite q)) = .error error) ∧
        ∀ s : ℕ, |q - s| ≤ 1 / 10 ^ 9 → exactCode s = none := by
  have hround : ∀ s : ℕ, |q - s| ≤ 1 / 10 ^ 9 → pyRound q = s := fun s hs =>
    pyRound_of_near (hs.trans_lt (by norm_num))
  simp only [periodCode, numberPeriodCode, if_neg (by linarith : ¬q ≤ 0), if_neg (not_lt.2 h1)]
  split
  · next h =>
    refine .inr ⟨⟨_, rfl⟩, fun s hs => absurd hs ?_⟩
    rw [hround s hs] at h
    exact not_le.2 h
  · next h =>
    have hnear := not_lt.1 h
    have hpos : (0 : ℚ) < pyRound q := by linarith [(abs_le.1 hnear).2]
    obtain ⟨s, hs⟩ := Int.eq_ofNat_of_zero_le (Int.cast_pos.1 hpos).le
    rw [hs] at hnear hpos ⊢
    rcases hcode : exactCode s with _ | code
    · refine .inr ⟨⟨_, by simp [hcode]; rfl⟩, fun s' hs' => ?_⟩
      have : s' = s := by exact_mod_cast (hround s' hs').symm.trans hs
      rwa [this]
    · exact .inl ⟨s, code, by exact_mod_cast hpos, hcode, hnear, by simp [hcode]⟩

/-- What is accepted is said by its code. -/
theorem expresses_of_ok (h0 : 0 < q) (h : periodCode text (some (.finite q)) = .ok code) :
    Expresses code q := by
  rcases lt_or_ge q 1 with h1 | h1
  · rcases @periodCode_centi text q h0 h1 with
      ⟨n, hlow, hhigh, hnear, hok⟩ | ⟨⟨error, herror⟩, -⟩
    · rw [← Except.ok.inj (hok.symm.trans h)]
      exact (expresses_centi hlow hhigh).2 hnear
    · cases h.symm.trans herror
  · rcases @periodCode_whole text q h1 with
      ⟨s, code', hs, hcode, hnear, hok⟩ | ⟨⟨error, herror⟩, -⟩
    · rw [← Except.ok.inj (hok.symm.trans h)]
      exact (expresses_exact hs hcode).2 hnear
    · cases h.symm.trans herror

theorem PeriodLaw.of_ok (h0 : 0 < q) (h : periodCode text (some (.finite q)) = .ok code) :
    PeriodLaw text q where
  accepted _ hok := expresses_of_ok h0 hok
  refused := by
    refine iff_of_false ?_ fun hnone => hnone code (expresses_of_ok h0 h)
    rintro ⟨error, herror⟩
    cases h.symm.trans herror

theorem periodLaw_of_error (h : ∃ error, periodCode text (some (.finite q)) = .error error) :
    PeriodLaw text q ↔ ∀ code, ¬Expresses code q := by
  refine ⟨fun hlaw => hlaw.refused.1 h, fun hnone => ⟨fun code hcode => ?_, fun _ => hnone,
    fun _ => h⟩⟩
  obtain ⟨error, herror⟩ := h
  cases hcode.symm.trans herror

/-- Just below one second whole seconds are not tried. -/
theorem periodLaw_iff (h0 : 0 < q) : PeriodLaw text q ↔ ¬(1 - 1 / 10 ^ 9 ≤ q ∧ q < 1) := by
  have hcenti : ∀ n : ℕ, n ≤ 99 → |q * 100 - n| < 1 / 10 ^ 6 → q < 1 - 1 / 10 ^ 9 := by
    intro n hn hnear
    have hn : (n : ℚ) ≤ 99 := by exact_mod_cast hn
    linarith [(abs_lt.1 hnear).2]
  rcases lt_or_ge q 1 with h1 | h1
  · rcases @periodCode_centi text q h0 h1 with ⟨n, -, hhigh, hnear, hok⟩ | ⟨herror, hnone⟩
    · exact iff_of_true (.of_ok h0 hok) fun h => not_le.2 (hcenti n hhigh hnear) h.1
    · rw [periodLaw_of_error herror]
      refine ⟨fun hcode h => hcode ['0', '1', 'S'] ?_, fun h code hcode => ?_⟩
      · refine (expresses_exact le_rfl (by rfl : exactCode 1 = some ['0', '1', 'S'])).2 ?_
        rw [abs_le]
        constructor <;> push_cast <;> linarith
      · rcases expresses_cases hcode with ⟨n, hlow, hhigh, hnear⟩ | ⟨s, hs, -, hnear⟩
        · exact hnone n hlow hhigh hnear
        · have hs : (1 : ℚ) ≤ s := by exact_mod_cast hs
          exact h ⟨by linarith [(abs_le.1 hnear).1], h1⟩
  · refine iff_of_true ?_ fun h => not_lt.2 h1 h.2
    rcases @periodCode_whole text q h1 with ⟨s, code, -, -, -, hok⟩ | ⟨herror, hnone⟩
    · exact .of_ok h0 hok
    · refine (periodLaw_of_error herror).2 fun code hcode => ?_
      rcases expresses_cases hcode with ⟨n, -, hhigh, hnear⟩ | ⟨s, -, hs, hnear⟩
      · linarith [hcenti n hhigh hnear]
      · exact hs (hnone s hnear)

theorem Expresses.dist_le {q' : ℚ} (h : Expresses code q) (h' : Expresses code q') :
    |q - q'| ≤ 2 * codeTolerance code := by
  obtain ⟨d, hd, -, hwithin⟩ := h
  obtain ⟨d', hd', -, hwithin'⟩ := h'
  obtain rfl : d = d' := Option.some.inj (hd.symm.trans hd')
  have hle : ∀ x : ℚ, (if code.getLast? = some 'C' then |x - d| < codeTolerance code
      else |x - d| ≤ codeTolerance code) → |x - d| ≤ codeTolerance code := by
    intro x hx
    split at hx
    · exact hx.le
    · exact hx
  have := abs_sub_le q d q'
  have := hle q hwithin
  have := hle q' hwithin'
  rw [abs_sub_comm d q'] at *
  linarith

/-- The codes of intervals and of spans. -/
theorem name_codes_iff (text : PyFloat → Str) :
    (∀ q : ℚ, 0 < q → (PeriodLaw text q ↔ ¬(1 - 1 / 10 ^ 9 ≤ q ∧ q < 1))) ∧
      (∀ (q q' : ℚ) (code code' : Str), 0 < q → 0 < q' →
        periodCode text (some (.finite q)) = .ok code →
        periodCode text (some (.finite q')) = .ok code' →
        2 * codeTolerance code < |q - q'| → code ≠ code') ∧
      ∀ n : ℕ, 1 ≤ n → ∃ code, durationCode (.finite n) = .ok code ∧ SpanLaw n code := by
  refine ⟨fun q h0 => periodLaw_iff h0, fun q q' code code' h0 h0' hok hok' hfar heq => ?_,
    fun n hn => durationCode_law hn⟩
  subst heq
  exact not_le.2 hfar ((expresses_of_ok h0 hok).dist_le (expresses_of_ok h0' hok'))

/-- Half a nanosecond off, below one second and above. -/
theorem name_codes_near_one :
    (PeriodLaw (fun _ => []) (1 - 5 / 10 ^ 10) ↔
        ¬(1 - 1 / 10 ^ 9 ≤ (1 - 5 / 10 ^ 10 : ℚ) ∧ (1 - 5 / 10 ^ 10 : ℚ) < 1)) ∧
      (PeriodLaw (fun _ => []) (1 + 5 / 10 ^ 10) ↔
        ¬(1 - 1 / 10 ^ 9 ≤ (1 + 5 / 10 ^ 10 : ℚ) ∧ (1 + 5 / 10 ^ 10 : ℚ) < 1)) :=
  ⟨(name_codes_iff _).1 _ (by norm_num), (name_codes_iff _).1 _ (by norm_num)⟩

theorem refused_below_one :
    periodCode (fun _ => "0.9999999995".toList) (some (.finite (1 - 5 / 10 ^ 10))) =
        .error "interval 0.9999999995 s is not a whole number of centiseconds".toList ∧
      Expresses ['0', '1', 'S'] (1 - 5 / 10 ^ 10) := by
  have hround : pyRound ((1 - 5 / 10 ^ 10) * 100) = (100 : ℕ) :=
    pyRound_of_near (by norm_num [abs_of_neg])
  refine ⟨?_, (expresses_exact le_rfl (by rfl : exactCode 1 = some ['0', '1', 'S'])).2 ?_⟩
  · rw [periodCode, numberPeriodCode, if_neg (by norm_num), if_pos (by norm_num)]
    simp only [hround]
    rw [if_neg (by simp)]
    rfl
  · norm_num [abs_of_neg]

end Mtrtk
