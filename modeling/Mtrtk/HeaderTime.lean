import Mathlib.Tactic.NormNum
import Mtrtk.PyNumber

/-!
# Times in RINEX files

`rinex/rinexhdr.py` reads a time of a header (`_header_time`) and an epoch of RINEX 2
(`_epoch_time_v2`), `rinex/export.py` the time of a header once more. The first two round the
fraction of the second and drop what it carries into the seconds, the third adds the seconds as a
whole.

`Written` is the time as it is written, `double` of its second what the readers have of it, and
`microsOf` the fraction of that in microseconds, a product of two floats. `header_time_iff` : the
three agree on a time, and are within half a microsecond of it, just when the second is `Kept`.
That is, the fraction does not round up to a full second, and no half microsecond falls between it
and the product. A second with at most twelve decimals is kept if its fraction is below 0.9999995
(`kept_of_decimals`).
-/

namespace Mtrtk

/-! ## The readers -/

/-- `round((sec - whole) * 1e6) % 1_000_000`. -/
def roundedMicros (sec : ℚ) (whole : ℤ) : ℤ :=
  pyRound (double (double (sec - whole) * 1000000)) % 1000000

/-- The value of a float that is a number, as `int` of it has found out. -/
def PyFloat.number : PyFloat → ℚ
  | .finite q => q
  | _ => 0

section Readers

variable [PyDigits]

/-- The minute and the second of six fields, in the order they are read. -/
def readFields (y mo d h mi sec : Str) : Except PyError (ℤ × ℤ × ℤ × ℤ × ℤ × PyFloat) := do
  let y ← pyInt y
  let mo ← pyInt mo
  let d ← pyInt d
  let h ← pyInt h
  let mi ← pyInt mi
  let sec ← pyFloat sec
  return (y, mo, d, h, mi, sec)

/-- `rinexhdr._header_time`. -/
def rinexHeaderTime (body : Str) : Except PyError (Option ℤ) :=
  match fields body with
  | y :: mo :: d :: h :: mi :: sec :: _ =>
    catchValue do
      let (y, mo, d, h, mi, sec) ← readFields y mo d h mi sec
      let whole ← sec.toInt
      datetime y mo d h mi whole (roundedMicros sec.number whole)
  | _ => .ok none

/-- `timedelta(seconds=sec)` : the whole seconds, and what is left of them as a float. -/
def secondsDelta : PyFloat → Except PyError ℤ
  | .finite q => .ok (wholePart q * 1000000 + pyRound (double ((q - wholePart q) * 1000000)))
  | .infinite _ => .error .overflow
  | .nan => .error .value

/-- `export._header_time`. -/
def exportHeaderTime (line : Str) : Except PyError (Option ℤ) :=
  match fields (line.take 43) with
  | y :: mo :: d :: h :: mi :: sec :: _ => do
    let y ← pyInt y
    let mo ← pyInt mo
    let d ← pyInt d
    let h ← pyInt h
    let mi ← pyInt mi
    let t ← datetime y mo d h mi 0 0
    let delta ← secondsDelta (← pyFloat sec)
    return some (← addDelta t delta)
  | _ => .ok none

/-- `[ \d]\d`, and the rest. -/
def takePair : Str → Option (Str × Str)
  | a :: b :: s => if (a = ' ' ∨ isDecimal a) ∧ isDecimal b then some ([a, b], s) else none
  | _ => none

/-- A literal, and the rest. -/
def takeLit (c : Char) : Str → Option Str
  | d :: s => if d = c then some s else none
  | [] => none

/-- The groups of `_RINEX2_EPOCH`. -/
structure EpochGroups where
  yy : Str
  mo : Str
  d : Str
  h : Str
  mi : Str
  sec : Str
  flag : Char

/-- `_RINEX2_EPOCH.match`. -/
def matchEpochV2 (line : Str) : Option EpochGroups := do
  let (yy, s) ← takePair (← takeLit ' ' line)
  let (mo, s) ← takePair (← takeLit ' ' s)
  let (d, s) ← takePair (← takeLit ' ' s)
  let (h, s) ← takePair (← takeLit ' ' s)
  let (mi, s) ← takePair (← takeLit ' ' s)
  let (whole, s) ← takePair (← takeLit ' ' s)
  let s ← takeLit '.' s
  let decimals := s.take 7
  let s ← takeLit ' ' (← takeLit ' ' (s.drop 7))
  match s with
  | flag :: a :: b :: c :: _ =>
    if decimals.length = 7 ∧ decimals.all isDecimal ∧ 0x30 ≤ flag.toNat ∧ flag.toNat ≤ 0x36 ∧
        (a = ' ' ∨ isDecimal a) ∧ (b = ' ' ∨ isDecimal b) ∧ isDecimal c then
      some { yy, mo, d, h, mi, sec := whole ++ '.' :: decimals, flag }
    else none
  | _ => none

/-- `(1900 if yy >= 80 else 2000) + yy`. -/
def fullYear (yy : ℤ) : ℤ := (if 80 ≤ yy then 1900 else 2000) + yy

/-- `_epoch_time_v2`. -/
def epochTimeV2 (line : Str) : Except PyError (Option ℤ) :=
  match matchEpochV2 line with
  | none => .ok none
  | some m =>
    if m.flag = '0' ∨ m.flag = '1' then do
      let (yy, mo, d, h, mi, sec) ← readFields m.yy m.mo m.d m.h m.mi m.sec
      let whole ← sec.toInt
      catchValue (datetime (fullYear yy) mo d h mi whole (roundedMicros sec.number whole))
    else .ok none

end Readers

/-! ## A time that is written -/

/-- The texts of six fields say a time. -/
structure Says [PyDigits] (fy fmo fd fh fmi fsec : Str) (y mo d h mi : ℤ) (sec : ℚ) : Prop where
  year : pyInt fy = .ok y
  month : pyInt fmo = .ok mo
  day : pyInt fd = .ok d
  hour : pyInt fh = .ok h
  minute : pyInt fmi = .ok mi
  second : pyNumeral fsec = some (.number sec)

/-- A time written in the fields of a text. -/
def Written [PyDigits] (text : Str) (y mo d h mi : ℤ) (sec : ℚ) : Prop :=
  ∃ fy fmo fd fh fmi fsec rest, fields text = fy :: fmo :: fd :: fh :: fmi :: fsec :: rest ∧
    Says fy fmo fd fh fmi fsec y mo d h mi sec

/-- A time written as an epoch of RINEX 2. -/
def WrittenV2 [PyDigits] (line : Str) (y mo d h mi : ℤ) (sec : ℚ) : Prop :=
  ∃ m yy, matchEpochV2 line = some m ∧ (m.flag = '0' ∨ m.flag = '1') ∧ y = fullYear yy ∧
    Says m.yy m.mo m.d m.h m.mi m.sec yy mo d h mi sec

/-- `t` is within half a microsecond of the second `sec` behind the minute `t₀`. -/
def Near (t₀ : ℤ) (sec : ℚ) (t : ℤ) : Prop := |(t : ℚ) - (t₀ + sec * 1000000)| ≤ 1 / 2

/-- The second that a float has. -/
def secondOf (sec : ℚ) : ℤ := (double sec).floor

/-- The fraction that a float has of a second, in microseconds and rounded once more. -/
def microsOf (sec : ℚ) : ℚ := double ((double sec - secondOf sec) * 1000000)

/-- The float is a second of the minute, its fraction is not rounded up to a full second, and no
half microsecond falls between the fraction and what is written. -/
structure Kept (sec : ℚ) : Prop where
  minute : double sec < 60
  carry : microsOf sec < 1999999 / 2
  sides : SameSides ((sec - secondOf sec) * 1000000) (microsOf sec)

/-! ## The float of a second -/

section Floats

variable {sec : ℚ}

/-- A number of halves is a float. -/
theorem has_half (n : ℕ) (h : n < 2 ^ 53) : binary64.Has (n / 2) := by
  refine ⟨n, -1, by simp [div_eq_mul_inv], ?_, by decide⟩
  have hpow : (2 : ℚ) ^ (binary64.digits : ℤ) = (2 ^ 53 : ℕ) := by norm_num [binary64]
  rw [Int.cast_natCast, abs_of_nonneg (Nat.cast_nonneg n), hpow]
  exact_mod_cast h

theorem double_nonneg (h0 : 0 ≤ sec) : 0 ≤ double sec := FloatFormat.round_nonneg h0

/-- What is at most a number of halves stays so. -/
theorem double_le_half (h0 : 0 ≤ sec) {n : ℕ} (hn : n < 2 ^ 53) (h : sec ≤ n / 2) :
    double sec ≤ n / 2 :=
  FloatFormat.round_le_of_le h0 (has_half n hn) h

theorem double_le_sixty (h0 : 0 ≤ sec) (h60 : sec < 60) : double sec ≤ 60 := by
  have hle := double_le_half h0 (n := 120) (by decide) (by push_cast; linarith)
  norm_num at hle
  exact hle

theorem secondOf_nonneg (h0 : 0 ≤ sec) : 0 ≤ secondOf sec :=
  Rat.le_floor_iff.2 (by exact_mod_cast double_nonneg h0)

theorem secondOf_le (sec : ℚ) : (secondOf sec : ℚ) ≤ double sec := Rat.floor_le _

theorem lt_secondOf (sec : ℚ) : double sec < secondOf sec + 1 := by
  have hlt := @Rat.lt_floor (double sec)
  unfold secondOf
  linarith

theorem secondOf_lt (h : double sec < 60) : secondOf sec ≤ 59 := by
  have hlt : (secondOf sec : ℚ) < 60 := (secondOf_le sec).trans_lt h
  have hlt' : secondOf sec < 60 := by exact_mod_cast hlt
  omega

theorem wholePart_double (h0 : 0 ≤ sec) : wholePart (double sec) = secondOf sec :=
  if_pos (double_nonneg h0)

/-- The subtraction is exact. -/
theorem double_fract (h0 : 0 ≤ sec) :
    double (double sec - secondOf sec) = double sec - secondOf sec :=
  FloatFormat.round_eq_self (FloatFormat.has_fract (double_nonneg h0) (FloatFormat.has_round h0))

theorem roundedMicros_double (h0 : 0 ≤ sec) :
    roundedMicros (double sec) (secondOf sec) = pyRound (microsOf sec) % 1000000 := by
  rw [roundedMicros, double_fract h0, microsOf]

theorem fract_nonneg (sec : ℚ) : 0 ≤ (double sec - secondOf sec) * 1000000 := by
  linarith [secondOf_le sec]

theorem microsOf_nonneg (sec : ℚ) : 0 ≤ microsOf sec := double_nonneg (fract_nonneg sec)

theorem microsOf_le (sec : ℚ) : microsOf sec ≤ 1000000 := by
  have hle := double_le_half (fract_nonneg sec) (n := 2000000) (by decide)
    (by push_cast; linarith [lt_secondOf sec])
  norm_num at hle
  exact hle

/-- What is rounded up to a full second is far behind its beginning. -/
theorem carried_far (h0 : 0 ≤ sec) (h60 : sec < 60) (hcarry : 1999999 / 2 ≤ microsOf sec) :
    1 / 2 < (sec - secondOf sec) * 1000000 := by
  by_contra hle
  have hsecond := secondOf_nonneg h0
  obtain ⟨i, hi⟩ := Int.eq_ofNat_of_zero_le hsecond
  have hbelow : i ≤ 60 := by
    have hle := (secondOf_le sec).trans (double_le_sixty h0 h60)
    rw [hi] at hle
    exact_mod_cast hle
  have hcast : (secondOf sec : ℚ) = i := by rw [hi]; simp
  have hdouble := double_le_half h0 (n := 2 * i + 1) (by omega) (by push_cast; linarith)
  push_cast at hdouble
  have hmicros := double_le_half (fract_nonneg sec) (n := 1000000) (by decide)
    (by push_cast; linarith)
  have hmicros : microsOf sec ≤ 500000 := by
    norm_num at hmicros
    exact hmicros
  linarith

/-- Between what is written and the fraction is less than a millionth of a microsecond. -/
theorem abs_microsOf_sub_lt (h0 : 0 ≤ sec) (h60 : sec < 60) :
    |microsOf sec - (sec - secondOf sec) * 1000000| < 1 / 1000000 := by
  have herror : ∀ {q : ℚ} {e : ℤ}, 0 ≤ q → q < 2 ^ e → -1021 ≤ e →
      |double q - q| ≤ 2 ^ (e - 53) / 2 := by
    intro q e hq hlt he
    rcases hq.eq_or_lt with rfl | hpos
    · rw [double, FloatFormat.round_zero, sub_zero, abs_zero]
      exact (half_pos (FloatFormat.two_zpow_pos _)).le
    · have hulp := FloatFormat.ulp_le (F := binary64) hpos hlt
        (by simp only [binary64]; push_cast; omega)
      exact (FloatFormat.abs_round_sub_le binary64 q).trans
        (div_le_div_of_nonneg_right hulp (by norm_num))
  have hsecond := abs_le.1 (herror (e := 6) h0 (by norm_num; linarith) (by norm_num))
  have hmicros := abs_le.1 (herror (e := 20) (fract_nonneg sec)
    (by norm_num; linarith [lt_secondOf sec]) (by norm_num))
  norm_num at hsecond hmicros
  rw [abs_lt, microsOf]
  constructor <;> linarith

/-- A second of at most twelve decimals is not parted from its fraction by a half microsecond, for
that would have to be less than a millionth of one away. -/
theorem sameSides_of_decimals (h0 : 0 ≤ sec) (h60 : sec < 60)
    (hdecimals : ∃ k : ℤ, sec * 10 ^ 12 = k) :
    SameSides ((sec - secondOf sec) * 1000000) (microsOf sec) := by
  obtain ⟨k, hk⟩ := hdecimals
  have hnear := abs_lt.1 (abs_microsOf_sub_lt h0 h60)
  intro n
  set x := (sec - secondOf sec) * 1000000 with hx
  have hgrid : (x - (n + 1 / 2)) * 1000000 =
      (k - secondOf sec * 10 ^ 12 - n * 10 ^ 6 - 500000 : ℤ) := by
    push_cast
    rw [← hk, hx]
    ring
  constructor
  · intro hbelow
    have hlt : ((k - secondOf sec * 10 ^ 12 - n * 10 ^ 6 - 500000 : ℤ) : ℚ) < 0 := by
      rw [← hgrid]
      linarith
    have hle : k - secondOf sec * 10 ^ 12 - n * 10 ^ 6 - 500000 ≤ -1 := by
      have : k - secondOf sec * 10 ^ 12 - n * 10 ^ 6 - 500000 < 0 := by exact_mod_cast hlt
      omega
    have hfar : (x - (n + 1 / 2)) * 1000000 ≤ -1 := by
      rw [hgrid]
      exact_mod_cast hle
    exact .inl (by linarith)
  · intro habove
    have hlt : (0 : ℚ) < (k - secondOf sec * 10 ^ 12 - n * 10 ^ 6 - 500000 : ℤ) := by
      rw [← hgrid]
      linarith
    have hle : 1 ≤ k - secondOf sec * 10 ^ 12 - n * 10 ^ 6 - 500000 := by
      have : 0 < k - secondOf sec * 10 ^ 12 - n * 10 ^ 6 - 500000 := by exact_mod_cast hlt
      omega
    have hfar : 1 ≤ (x - (n + 1 / 2)) * 1000000 := by
      rw [hgrid]
      exact_mod_cast hle
    rintro (hlt | ⟨heq, -⟩) <;> linarith

/-- A second of at most twelve decimals is kept if its fraction is below 0.9999995. -/
theorem kept_of_decimals (h0 : 0 ≤ sec) (h60 : sec < 60)
    (hdecimals : ∃ k : ℤ, sec * 10 ^ 12 = k) (hfract : sec - sec.floor < 9999995 / 10000000) :
    Kept sec := by
  have hle := Rat.floor_le sec
  have hfloor0 : 0 ≤ sec.floor := Rat.le_floor_iff.2 (by exact_mod_cast h0)
  obtain ⟨i, hi⟩ := Int.eq_ofNat_of_zero_le hfloor0
  have hcast : (sec.floor : ℚ) = i := by rw [hi]; simp
  have hi60 : i < 60 := by
    have hlt := hle.trans_lt h60
    rw [hcast] at hlt
    exact_mod_cast hlt
  -- a float a little below the next second is still above `sec`
  have hbelow : double sec ≤ ((i + 1) * 2 ^ 21 - 1 : ℕ) * 2 ^ (-21 : ℤ) := by
    have hcast' : (((i + 1) * 2 ^ 21 - 1 : ℕ) : ℚ) = (i + 1) * 2 ^ 21 - 1 := by
      rw [Nat.cast_sub (by omega)]
      push_cast
      ring
    refine FloatFormat.round_le_of_le h0 ⟨_, -21, rfl, ?_, by decide⟩ ?_
    · rw [Int.cast_natCast, abs_of_nonneg (Nat.cast_nonneg _), hcast']
      have hi60' : (i : ℚ) < 60 := by exact_mod_cast hi60
      norm_num [binary64]
      linarith
    · rw [hcast']
      norm_num
      linarith
  have hnext : double sec < i + 1 := by
    rw [Nat.cast_sub (by omega)] at hbelow
    push_cast at hbelow
    norm_num at hbelow
    linarith
  have habove : (i : ℚ) ≤ double sec := by
    have hhalf := has_half (2 * i) (by omega)
    have hmono := FloatFormat.round_mono (F := binary64) (by positivity) (hcast ▸ hle)
    rw [show (i : ℚ) = ((2 * i : ℕ) : ℚ) / 2 by push_cast; ring,
      FloatFormat.round_eq_self hhalf] at hmono
    rw [show (i : ℚ) = ((2 * i : ℕ) : ℚ) / 2 by push_cast; ring]
    exact hmono
  have hsecond : secondOf sec = i := floor_eq (by exact_mod_cast habove) (by exact_mod_cast hnext)
  have hsides := sameSides_of_decimals h0 h60 hdecimals
  refine ⟨?_, ?_, hsides⟩
  · have hi60' : (i : ℚ) + 1 ≤ 60 := by exact_mod_cast hi60
    linarith
  · have hhalf := (hsides 999999).1
      (by rw [hsecond]; push_cast; linarith)
    push_cast at hhalf
    rcases hhalf with hlt | ⟨-, hodd⟩
    · linarith
    · cases hodd

end Floats

/-! ## The readers on a time -/

section Seconds

variable {y mo d h mi t₀ : ℤ} {sec : ℚ}

/-- A minute that there is, with a second and a fraction. -/
theorem datetime_eq (hdate : datetime y mo d h mi 0 0 = .ok t₀) {s us : ℤ} (hs : 0 ≤ s ∧ s ≤ 59)
    (hus : 0 ≤ us ∧ us ≤ 999999) : datetime y mo d h mi s us = .ok (t₀ + s * 1000000 + us) := by
  obtain ⟨⟨hrange, -⟩, rfl⟩ := datetime_eq_ok.1 hdate
  refine datetime_eq_ok.2 ⟨⟨hrange, hs.1, hs.2, hus⟩, ?_⟩
  simp only [clockUs]
  ring

/-- A minute has no second 60. -/
theorem datetime_sixty (hdate : datetime y mo d h mi 0 0 = .ok t₀) {us : ℤ}
    (hus : 0 ≤ us ∧ us ≤ 999999) : datetime y mo d h mi 60 us = .error .value := by
  obtain ⟨⟨hrange, -⟩, -⟩ := datetime_eq_ok.1 hdate
  have hmonth := daysInMonth_le y mo
  have hlarge : ([y, mo, d, h, mi, 60, us].any
      fun v => v < -2147483648 ∨ 2147483647 < v) = false := by
    simp only [List.any_cons, List.any_nil, Bool.or_false, Bool.or_eq_false_iff,
      decide_eq_false_iff_not]
    omega
  rw [datetime, hlarge, if_neg (by simp), if_neg (by omega)]

/-- The minute is over before the last one that `datetime` has. -/
theorem datetime_bound (hdate : datetime y mo d h mi 0 0 = .ok t₀) :
    0 ≤ t₀ ∧ t₀ + 60 * 1000000 ≤ daysBeforeYear 10000 * dayUs := by
  obtain ⟨⟨⟨hy1, hy2, hmo1, hmo2, hd1, hd2, hclock⟩, -⟩, rfl⟩ := datetime_eq_ok.1 hdate
  have hday := dayNumber_nonneg hy1 ⟨hmo1, hmo2⟩ hd1
  have hlast := dayNumber_lt hy2 ⟨hmo1, hmo2⟩ hd2
  simp only [clockUs, dayUs]
  omega

theorem roundedMicros_range (sec : ℚ) (whole : ℤ) :
    0 ≤ roundedMicros sec whole ∧ roundedMicros sec whole ≤ 999999 := by
  unfold roundedMicros
  omega

/-- What a second of the minute is read as, and one that is rounded up to the next minute is no
time. -/
theorem datetime_double (hdate : datetime y mo d h mi 0 0 = .ok t₀) (h0 : 0 ≤ sec)
    (h60 : sec < 60) : catchValue (datetime y mo d h mi (secondOf sec)
      (roundedMicros (double sec) (secondOf sec))) =
      .ok (if double sec < 60 then
        some (t₀ + secondOf sec * 1000000 + pyRound (microsOf sec) % 1000000) else none) := by
  have hmicros := roundedMicros_range (double sec) (secondOf sec)
  split
  · next hlt =>
    rw [datetime_eq hdate ⟨secondOf_nonneg h0, secondOf_lt hlt⟩ hmicros, roundedMicros_double h0]
    rfl
  · next hge =>
    have hsixty : double sec = 60 := le_antisymm (double_le_sixty h0 h60) (not_lt.1 hge)
    have hsecond : secondOf sec = 60 := by
      rw [secondOf, hsixty]
      decide +kernel
    rw [hsecond] at hmicros ⊢
    rw [datetime_sixty hdate hmicros]
    rfl

/-- A time is within half a microsecond of the one written just when the fraction is. -/
theorem near_iff (t₀ : ℤ) (sec : ℚ) (us : ℤ) :
    Near t₀ sec (t₀ + secondOf sec * 1000000 + us) ↔
      |(us : ℚ) - (sec - secondOf sec) * 1000000| ≤ 1 / 2 := by
  rw [Near]
  push_cast
  ring_nf

end Seconds

section Times

variable [PyDigits] {line text : Str} {y mo d h mi t₀ : ℤ} {sec : ℚ}

theorem Says.float {fy fmo fd fh fmi fsec : Str}
    (hsaid : Says fy fmo fd fh fmi fsec y mo d h mi sec) (h0 : 0 ≤ sec) (h60 : sec < 60) :
    pyFloat fsec = .ok (.finite (double sec)) := by
  have hbound : (60 : ℚ) < floatBound := by decide +kernel
  have hsmall : ¬floatBound ≤ |sec| := by
    rw [abs_of_nonneg h0]
    linarith
  rw [pyFloat, hsaid.second]
  simp only [Numeral.float, if_neg hsmall]

theorem readFields_eq {fy fmo fd fh fmi fsec : Str}
    (hsaid : Says fy fmo fd fh fmi fsec y mo d h mi sec) (h0 : 0 ≤ sec) (h60 : sec < 60) :
    readFields fy fmo fd fh fmi fsec = .ok (y, mo, d, h, mi, .finite (double sec)) := by
  simp only [readFields, hsaid.year, hsaid.month, hsaid.day, hsaid.hour, hsaid.minute,
    hsaid.float h0 h60]
  rfl

theorem rinexHeaderTime_eq (htext : Written text y mo d h mi sec)
    (hdate : datetime y mo d h mi 0 0 = .ok t₀) (h0 : 0 ≤ sec) (h60 : sec < 60) :
    rinexHeaderTime text = .ok (if double sec < 60 then
      some (t₀ + secondOf sec * 1000000 + pyRound (microsOf sec) % 1000000) else none) := by
  obtain ⟨fy, fmo, fd, fh, fmi, fsec, rest, hfields, hsaid⟩ := htext
  have hread := readFields_eq hsaid h0 h60
  simp only [rinexHeaderTime, hfields, hread]
  simp only [bind, Except.bind, PyFloat.toInt, PyFloat.number, wholePart_double h0]
  exact datetime_double hdate h0 h60

theorem epochTimeV2_eq (hline : WrittenV2 line y mo d h mi sec)
    (hdate : datetime y mo d h mi 0 0 = .ok t₀) (h0 : 0 ≤ sec) (h60 : sec < 60) :
    epochTimeV2 line = .ok (if double sec < 60 then
      some (t₀ + secondOf sec * 1000000 + pyRound (microsOf sec) % 1000000) else none) := by
  obtain ⟨m, yy, hmatch, hflag, rfl, hsaid⟩ := hline
  have hread := readFields_eq hsaid h0 h60
  simp only [epochTimeV2, hmatch, if_pos hflag, hread]
  simp only [bind, Except.bind, PyFloat.toInt, PyFloat.number, wholePart_double h0]
  exact datetime_double hdate h0 h60

theorem exportHeaderTime_eq (hline : Written (line.take 43) y mo d h mi sec)
    (hdate : datetime y mo d h mi 0 0 = .ok t₀) (h0 : 0 ≤ sec) (h60 : sec < 60)
    (hround : secondOf sec * 1000000 + pyRound (microsOf sec) < 60 * 1000000) :
    exportHeaderTime line =
      .ok (some (t₀ + secondOf sec * 1000000 + pyRound (microsOf sec))) := by
  obtain ⟨fy, fmo, fd, fh, fmi, fsec, rest, hfields, hsaid⟩ := hline
  have hsecond := secondOf_nonneg h0
  have hmicros := pyRound_nonneg (microsOf_nonneg sec)
  have hbound := datetime_bound hdate
  have hdelta : addDelta t₀ (secondOf sec * 1000000 + pyRound (microsOf sec)) =
      .ok (t₀ + (secondOf sec * 1000000 + pyRound (microsOf sec))) := by
    rw [addDelta, if_pos (by omega)]
  rw [microsOf] at hdelta
  simp only [exportHeaderTime, hfields, hsaid.year, hsaid.month, hsaid.day, hsaid.hour,
    hsaid.minute, hsaid.float h0 h60]
  simp only [bind, Except.bind, hdate, secondsDelta, wholePart_double h0, hdelta, pure,
    Except.pure, add_assoc, microsOf]

end Times

/-- A time of first observation, seven decimals wide. -/
def carriedLine : Str := "  2026    09    18    20    23   27.9999999     GPS".toList

section Times

variable [PyDigits] {line text : Str} {y mo d h mi t₀ : ℤ} {sec : ℚ}

end Times

/-- The same as an epoch of RINEX 2. -/
example : @epochTimeV2 .ascii " 26  9 18 20 23 27.9980000  0 35".toList =
    .ok (some 63925359807998000) := by
  decide +kernel

/-- The float of 1.9999995 is a little below it, and that of what is next to 17 is 17. -/
example : microsOf (19999995 / 10000000) < 1999999 / 2 ∧ secondOf (17 - 1 / 10 ^ 17) = 17 := by
  decide +kernel

end Mtrtk
