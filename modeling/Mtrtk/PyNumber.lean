import Mathlib.Algebra.Order.Field.Rat
import Mathlib.Tactic.IntervalCases
import Mtrtk.Double
import Mtrtk.Text

/-!
# Numbers and dates as Python reads them

`int` and `float` of a text, the fields of a line, and `datetime` with the exceptions they raise. A
decimal digit is what `unicodedata` says it is (`PyDigits`). What a text says is a `Numeral`; the
float is the `double` nearest to it, and past the largest one it is infinite.

A `datetime` is the number of microseconds since the year 1 began.
-/

namespace Mtrtk

/-- What is raised : `ValueError`, `OverflowError`. -/
inductive PyError
  | value | overflow
  deriving DecidableEq, Repr

/-- `except ValueError: return None`. -/
def catchValue {α : Type*} : Except PyError α → Except PyError (Option α)
  | .ok a => .ok (some a)
  | .error .value => .ok none
  | .error .overflow => .error .overflow

/-- `str.split()`. -/
def fields (s : Str) : List Str := (s.splitOnP isWhite).filter (· ≠ [])

/-! ## Numbers -/

/-- What `unicodedata.decimal` says of a code point. -/
class PyDigits where
  digit : Char → Option ℕ
  digit_ascii : ∀ c : Char, c.toNat < 128 →
    digit c = if 0x30 ≤ c.toNat ∧ c.toNat ≤ 0x39 then some (c.toNat - 0x30) else none

/-- No digits but the ASCII ones. -/
@[reducible] def PyDigits.ascii : PyDigits where
  digit c := if 0x30 ≤ c.toNat ∧ c.toNat ≤ 0x39 then some (c.toNat - 0x30) else none
  digit_ascii _ _ := rfl

section Numbers

variable [PyDigits]

/-- `\d`. -/
def isDecimal (c : Char) : Bool := (PyDigits.digit c).isSome

/-- The text without its `_`, each of which has to have a digit before it and one behind. -/
def ungroup : Bool → Str → Option Str
  | _, [] => some []
  | afterDigit, c :: s =>
    if c = '_' then
      if afterDigit ∧ s.head?.any isDecimal then ungroup false s else none
    else (ungroup (isDecimal c) s).map (c :: ·)

/-- The number of decimal digits. -/
def digitsValue (s : Str) : Option ℕ :=
  s.foldlM (fun n c => (PyDigits.digit c).map fun d => 10 * n + d) 0

/-- Whether there is a minus, and what follows the sign. -/
def takeSign : Str → Bool × Str
  | '-' :: s => (true, s)
  | '+' :: s => (false, s)
  | s => (false, s)

/-- `sys.get_int_max_str_digits`. -/
def intMaxStrDigits : ℕ := 4300

/-- An integer with its sign. -/
def signedDigits (s : Str) : Option ℤ :=
  let (negative, digits) := takeSign s
  if digits = [] then none
  else (digitsValue digits).map fun n => if negative then -(n : ℤ) else n

/-- `int(text)`. -/
def pyInt (text : Str) : Except PyError ℤ :=
  match ungroup false (strip text) with
  | none => .error .value
  | some s =>
    if intMaxStrDigits < (takeSign s).2.length then .error .value
    else
      match signedDigits s with
      | none => .error .value
      | some n => .ok n

/-- A float. -/
inductive PyFloat
  | finite (value : ℚ)
  | infinite (negative : Bool)
  | nan
  deriving DecidableEq

/-- From here on a number is rounded to infinity. -/
def floatBound : ℚ := 2 ^ 1024 - 2 ^ 970

/-- The exponent behind a mantissa. -/
def parseExponent : Str → Option ℤ
  | [] => some 0
  | c :: s => if c = 'e' ∨ c = 'E' then signedDigits s else none

/-- A decimal number without its sign. -/
def parseDecimal (s : Str) : Option ℚ := do
  let whole := s.takeWhile isDecimal
  let s := s.dropWhile isDecimal
  let frac := if s.head? = some '.' then s.tail.takeWhile isDecimal else []
  let s := if s.head? = some '.' then s.tail.dropWhile isDecimal else s
  if whole ++ frac = [] then none
  else
    let mantissa ← digitsValue (whole ++ frac)
    let exponent ← parseExponent s
    return mantissa * 10 ^ (exponent - frac.length)

/-- What a text says, before it is rounded. -/
inductive Numeral
  | number (value : ℚ)
  | infinite (negative : Bool)
  | nan
  deriving DecidableEq

/-- A numeral behind its sign. -/
def parseUnsigned (negative : Bool) (s : Str) : Option Numeral :=
  if lower s = "inf".toList ∨ lower s = "infinity".toList then some (.infinite negative)
  else if lower s = "nan".toList then some .nan
  else (parseDecimal s).map fun q => .number (if negative then -q else q)

/-- What `float` reads of a text. -/
def pyNumeral (text : Str) : Option Numeral :=
  (ungroup false (strip text)).bind fun s => parseUnsigned (takeSign s).1 (takeSign s).2

/-- The float that a numeral is rounded to. -/
def Numeral.float : Numeral → PyFloat
  | .number q => if floatBound ≤ |q| then .infinite (q < 0) else .finite (double q)
  | .infinite negative => .infinite negative
  | .nan => .nan

/-- `float(text)`. -/
def pyFloat (text : Str) : Except PyError PyFloat :=
  match pyNumeral text with
  | none => .error .value
  | some n => .ok n.float

end Numbers

/-- The whole part, as `modf` has it. -/
def wholePart (q : ℚ) : ℤ := if 0 ≤ q then q.floor else q.ceil

/-- `int(x)`. -/
def PyFloat.toInt : PyFloat → Except PyError ℤ
  | .finite q => .ok (wholePart q)
  | .infinite _ => .error .overflow
  | .nan => .error .value

/-! ## Dates -/

/-- `_is_leap`. -/
def isLeap (year : ℤ) : Bool := year % 4 = 0 ∧ (year % 100 ≠ 0 ∨ year % 400 = 0)

/-- `_days_in_month`. -/
def daysInMonth (year month : ℤ) : ℤ :=
  if month = 2 then if isLeap year then 29 else 28
  else if month = 4 ∨ month = 6 ∨ month = 9 ∨ month = 11 then 30
  else 31

/-- `_days_before_year`. -/
def daysBeforeYear (year : ℤ) : ℤ :=
  let y := year - 1
  y * 365 + y / 4 - y / 100 + y / 400

/-- `_days_before_month`. -/
def daysBeforeMonth (year month : ℤ) : ℤ :=
  [0, 31, 59, 90, 120, 151, 181, 212, 243, 273, 304, 334].getD (month - 1).toNat 0 +
    if 2 < month ∧ isLeap year then 1 else 0

/-- The day, from the first of the year 1 on. -/
def dayNumber (year month day : ℤ) : ℤ :=
  daysBeforeYear year + daysBeforeMonth year month + day - 1

/-- A time of day, in microseconds. -/
def clockUs (hour minute second us : ℤ) : ℤ :=
  ((hour * 60 + minute) * 60 + second) * 1000000 + us

/-- A day, in microseconds. -/
def dayUs : ℤ := 86400 * 1000000

/-- `datetime(year, month, day, hour, minute, second, us)`, whose arguments have to be a C `int`. -/
def datetime (year month day hour minute second us : ℤ) : Except PyError ℤ :=
  if [year, month, day, hour, minute, second, us].any fun v => v < -2147483648 ∨ 2147483647 < v then
    .error .overflow
  else if (1 ≤ year ∧ year ≤ 9999 ∧ 1 ≤ month ∧ month ≤ 12 ∧ 1 ≤ day ∧
      day ≤ daysInMonth year month ∧ 0 ≤ hour ∧ hour ≤ 23 ∧ 0 ≤ minute ∧ minute ≤ 59) ∧
      0 ≤ second ∧ second ≤ 59 ∧ 0 ≤ us ∧ us ≤ 999999 then
    .ok (dayNumber year month day * dayUs + clockUs hour minute second us)
  else .error .value

/-- `datetime + timedelta`. -/
def addDelta (t delta : ℤ) : Except PyError ℤ :=
  if 0 ≤ t + delta ∧ t + delta < daysBeforeYear 10000 * dayUs then .ok (t + delta)
  else .error .overflow

theorem daysInMonth_le (year month : ℤ) : daysInMonth year month ≤ 31 := by
  unfold daysInMonth
  split_ifs <;> decide

variable {year month day hour minute second us t : ℤ}

theorem datetime_eq_ok : datetime year month day hour minute second us = .ok t ↔
    ((1 ≤ year ∧ year ≤ 9999 ∧ 1 ≤ month ∧ month ≤ 12 ∧ 1 ≤ day ∧ day ≤ daysInMonth year month ∧
        0 ≤ hour ∧ hour ≤ 23 ∧ 0 ≤ minute ∧ minute ≤ 59) ∧ 0 ≤ second ∧ second ≤ 59 ∧
        0 ≤ us ∧ us ≤ 999999) ∧
      dayNumber year month day * dayUs + clockUs hour minute second us = t := by
  have hmonth := daysInMonth_le year month
  unfold datetime
  split
  · next hlarge =>
    simp only [List.any_cons, List.any_nil, Bool.or_false, Bool.or_eq_true, decide_eq_true_eq]
      at hlarge
    simp only [reduceCtorEq, false_iff]
    omega
  · split
    · next hrange => simp [hrange]
    · next hrange => simp [hrange]

theorem dayNumber_nonneg (hyear : 1 ≤ year) (hmonth : 1 ≤ month ∧ month ≤ 12) (hday : 1 ≤ day) :
    0 ≤ dayNumber year month day := by
  have hmonths : 0 ≤ daysBeforeMonth year month := by
    obtain ⟨h1, h12⟩ := hmonth
    unfold daysBeforeMonth
    interval_cases month <;> simp <;> split <;> omega
  have hyears : 0 ≤ daysBeforeYear year := by
    simp only [daysBeforeYear]
    omega
  rw [dayNumber]
  omega

theorem dayNumber_lt (hyear : year ≤ 9999) (hmonth : 1 ≤ month ∧ month ≤ 12)
    (hday : day ≤ daysInMonth year month) : dayNumber year month day < daysBeforeYear 10000 := by
  have hmonths : daysBeforeMonth year month + day ≤ if isLeap year then 366 else 365 := by
    obtain ⟨h1, h12⟩ := hmonth
    unfold daysBeforeMonth
    unfold daysInMonth at hday
    interval_cases month <;> by_cases hleap : isLeap year = true <;> simp_all <;> omega
  have hnext : daysBeforeYear year + (if isLeap year then 366 else 365) ≤
      daysBeforeYear (year + 1) := by
    simp only [daysBeforeYear, isLeap, Bool.decide_and, Bool.and_eq_true, decide_eq_true_eq]
    split <;> omega
  have hlast : daysBeforeYear (year + 1) ≤ daysBeforeYear 10000 := by
    simp only [daysBeforeYear]
    omega
  rw [dayNumber]
  omega

end Mtrtk
