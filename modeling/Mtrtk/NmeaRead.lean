import Mtrtk.NmeaFraming

/-!
# NMEA sentences, read back

What a consumer reads of the sentences of `rover/nmea_out.py`. `readFields` is what is between the
`$` and the `*`, at its commas.

`position_read` : of a GGA and of an RMC it reads the position that was written, to half a digit of
the minutes, and no position where there is no valid fix. Coordinates are rationals : in floats the
minutes are a product that is rounded once more, by some 1e-15 of a minute.

`gsv_read` : of the GSV sentences of an epoch, which have four satellites each and are numbered, it
reads every satellite that has an NMEA number (`numbered`), once and in order, and the numbering is
right. A GLONASS satellite of an unknown slot is in none.
-/

namespace Mtrtk

namespace Nmea

/-! ## Fields -/

/-- What is between `$` and `*`, at its commas. -/
def readFields (raw : List UInt8) : Fields :=
  (decodeLatin1 ((raw.drop 1).takeWhile (· ≠ 0x2A))).splitOn ','

/-- A sentence is read at its commas. -/
theorem readFields_sentence {fields : Fields} (h : PlainFields fields) (hne : fields ≠ []) :
    readFields (sentence fields) = fields := by
  have hcomma : ∀ field ∈ fields, ',' ∉ field := fun field hfield hmem =>
    absurd (h field hfield ',' hmem) (by decide)
  have hascii : ∀ c ∈ body fields, c.toNat < 128 := fun c hc => by
    rcases mem_body h hc with hplain | rfl
    · exact plainChar_lt hplain
    · decide
  have hstar : ∀ b ∈ encode (body fields), decide (b ≠ 0x2A) = true := fun b hb => by
    have hb' : b ≠ 0x2A := fun heq => notMem_encode_body h (by decide) (heq ▸ hb)
    simpa using hb'
  rw [readFields, sentence_eq, List.cons_append, List.drop_one, List.tail_cons,
    List.takeWhile_append_of_pos hstar]
  simp only [ne_eq, decide_not, List.takeWhile_cons, decide_true, Bool.not_true,
    Bool.false_eq_true, if_false, List.append_nil]
  rw [decodeLatin1_encode_of_ascii hascii, body, List.splitOn_intercalate ',' hcomma hne]

@[simp] theorem twoDigits_ne_nil (n : ℕ) : twoDigits n ≠ [] :=
  List.append_ne_nil_of_right_ne_nil _ Nat.toDigits_ne_nil

@[simp] theorem zfill_decimal_ne_nil (width n : ℕ) : zfill width (decimal n) ≠ [] :=
  List.append_ne_nil_of_right_ne_nil _ Nat.toDigits_ne_nil

section Numbers

variable [PyDigits]

@[simp] theorem digitsValue_decimal (n : ℕ) : digitsValue (decimal n) = some n :=
  digitsValue_toDigits n

theorem digitsValue_zeros (k : ℕ) (s : Str) :
    digitsValue (List.replicate k '0' ++ s) = digitsValue s := by
  have hzero : PyDigits.digit '0' = some 0 := digit_digitChar 0 (by decide)
  induction k with
  | zero => rfl
  | succ k ih =>
    rw [digitsValue] at ih ⊢
    rw [List.replicate_succ, List.cons_append, List.foldlM_cons, hzero]
    exact ih

@[simp] theorem digitsValue_twoDigits (n : ℕ) : digitsValue (twoDigits n) = some n :=
  (digitsValue_zeros _ _).trans (digitsValue_toDigits n)

@[simp] theorem digitsValue_zfill (width n : ℕ) :
    digitsValue (zfill width (decimal n)) = some n :=
  (digitsValue_zeros _ _).trans (digitsValue_toDigits n)

theorem digitsValue_append {a b : Str} {x y : ℕ} (ha : digitsValue a = some x)
    (hb : digitsValue b = some y) : digitsValue (a ++ b) = some (x * 10 ^ b.length + y) := by
  rw [digitsValue] at ha hb ⊢
  rw [List.foldlM_append, ha]
  change b.foldlM (fun n c => (PyDigits.digit c).map fun d => 10 * n + d) x = _
  induction b using List.reverseRecOn generalizing y with
  | nil =>
    obtain rfl : 0 = y := Option.some.inj hb
    simp
  | append_singleton b c ih =>
    rw [List.foldlM_append] at hb ⊢
    obtain ⟨z, hz, hc⟩ := Option.bind_eq_some_iff.1 hb
    rw [ih hz]
    change (PyDigits.digit c).map _ >>= pure = _
    change (PyDigits.digit c).map _ >>= pure = _ at hc
    cases hdigit : PyDigits.digit c with
    | none => simp [hdigit] at hc
    | some d =>
      rw [hdigit] at hc
      obtain rfl : 10 * z + d = y := Option.some.inj hc
      simp only [Option.map_some, Option.bind_eq_bind, Option.bind_some, Option.pure_def,
        List.length_append, List.length_singleton, Option.some.injEq]
      ring

end Numbers

/-! ## The position -/

/-- What `_angle` writes : the degrees, and so many ten millionths of a minute. -/
theorem angleParts_spec (value : ℚ) : ∃ k : ℕ, (angleParts value).2 = k / 10 ^ 7 ∧
    k < 60 * 10 ^ 7 ∧ |(angleParts value).1 + (angleParts value).2 / 60 - abs value| ≤
      1 / (120 * 10 ^ 7) := by
  have hfloor : (⌊|value|⌋.toNat : ℚ) = ⌊|value|⌋ := by
    exact_mod_cast Int.toNat_of_nonneg (Int.floor_nonneg.2 (abs_nonneg value))
  have hlow : (⌊|value|⌋ : ℚ) ≤ |value| := Int.floor_le _
  have hhigh : |value| < ⌊|value|⌋ + 1 := Int.lt_floor_add_one _
  have hparts : angleParts value = if 60 ≤ roundTo 7 ((|value| - ⌊|value|⌋.toNat) * 60)
      then (⌊|value|⌋.toNat + 1, 0)
      else (⌊|value|⌋.toNat, roundTo 7 ((|value| - ⌊|value|⌋.toNat) * 60)) := rfl
  generalize ⌊|value|⌋.toNat = deg at hfloor hparts
  rw [← hfloor] at hlow hhigh
  have hround := abs_le.1 (abs_pyRound_sub_le ((|value| - deg) * 60 * 10 ^ 7))
  have hnonneg := pyRound_nonneg (q := (|value| - deg) * 60 * 10 ^ 7) (by nlinarith)
  obtain ⟨k, hk⟩ := Int.eq_ofNat_of_zero_le hnonneg
  rw [roundTo, hk, Int.cast_natCast] at hparts
  rw [hk] at hround
  push_cast at hround
  rw [hparts]
  split
  · next hover =>
    have hover : (60 : ℚ) * 10 ^ 7 ≤ k := (le_div_iff₀ (by norm_num)).1 hover
    refine ⟨0, by simp, by norm_num, abs_le.2 ⟨?_, ?_⟩⟩ <;> push_cast <;> linarith
  · next hunder =>
    have hunder : (k : ℚ) < 60 * 10 ^ 7 := (div_lt_iff₀ (by norm_num)).1 (not_le.1 hunder)
    refine ⟨k, rfl, by exact_mod_cast hunder, abs_le.2 ⟨?_, ?_⟩⟩ <;> linarith

/-- So many ten millionths, to seven decimals. -/
theorem fixedText_ten_millionths (k : ℕ) : (fixedText 7 ((k : ℚ) / 10 ^ 7)).toList =
    decimal (k / 10 ^ 7) ++ '.' :: zfill 7 (decimal (k % 10 ^ 7)) := by
  have hround : pyRound (|(k : ℚ) / 10 ^ 7| * 10 ^ 7) = k := by
    rw [abs_of_nonneg (by positivity), div_mul_cancel₀ _ (by norm_num)]
    exact pyRound_of_near (by simp)
  have hsign : ¬(k : ℚ) / 10 ^ 7 < 0 := not_lt.2 (by positivity)
  have hdigits : ∀ n : ℕ, (toString n).toList = decimal n := fun n => by
    change (Nat.repr n).toList = _
    rw [Nat.repr, String.toList_ofList]
    rfl
  have hlength : ∀ n : ℕ, (toString n).length = (decimal n).length := fun n => by
    rw [← hdigits, String.length_toList]
  rw [fixedText, hround, if_neg hsign, if_neg (by decide)]
  simp only [Int.toNat_natCast, String.toList_append, String.toList_ofList, hdigits, hlength, zfill]
  simp

theorem length_ten_millionths (k : ℕ) : (zfill 7 (decimal (k % 10 ^ 7))).length = 7 := by
  have hle : (decimal (k % 10 ^ 7)).length ≤ 7 :=
    (Nat.length_toDigits_le_iff (by decide) (by decide)).2 (Nat.mod_lt k (by decide))
  simp only [zfill, List.length_append, List.length_replicate]
  omega

/-- An angle, with its minutes in ten millionths. -/
theorem angle_eq {value : ℚ} {k : ℕ} (hk : (angleParts value).2 = k / 10 ^ 7) (degWidth : ℕ) :
    angle degWidth value = zfill degWidth (decimal (angleParts value).1) ++
      twoDigits (k / 10 ^ 7) ++ '.' :: zfill 7 (decimal (k % 10 ^ 7)) := by
  rw [angle, hk, fixedText_ten_millionths, List.append_assoc]
  congr 1
  rw [zfill, List.length_append, List.length_cons, length_ten_millionths, ← List.append_assoc, twoDigits]
  congr 2
  rw [decimal]
  congr 1
  omega

section Reader

variable [PyDigits]

/-- Degrees and minutes. -/
def readAngle (field : Str) : Option ℚ := do
  let whole ← digitsValue (field.takeWhile (· ≠ '.'))
  let frac := (field.dropWhile (· ≠ '.')).tail
  let part ← digitsValue frac
  return (whole / 100 : ℕ) + ((whole % 100 : ℕ) + (part : ℚ) / 10 ^ frac.length) / 60

/-- The sign of a hemisphere. -/
def readSign (positive negative : Char) (field : Str) : Option ℚ :=
  if field = [positive] then some 1 else if field = [negative] then some (-1) else none

/-- Latitude and longitude. -/
def readPosition : Fields → Option (ℚ × ℚ)
  | [lat, ns, lon, ew] => do
    return ((← readAngle lat) * (← readSign 'N' 'S' ns), (← readAngle lon) * (← readSign 'E' 'W' ew))
  | _ => none

/-- The position of a GGA sentence. -/
def readGga (raw : List UInt8) : Option (ℚ × ℚ) := readPosition (((readFields raw).drop 2).take 4)

/-- The position of an RMC sentence. -/
def readRmc (raw : List UInt8) : Option (ℚ × ℚ) := readPosition (((readFields raw).drop 3).take 4)

theorem readAngle_angle (degWidth : ℕ) (value : ℚ) :
    ∃ r, readAngle (angle degWidth value) = some r ∧ |r - abs value| ≤ 1 / (120 * 10 ^ 7) := by
  obtain ⟨k, hk, hlt, hnear⟩ := angleParts_spec value
  refine ⟨(angleParts value).1 + (angleParts value).2 / 60, ?_, hnear⟩
  set deg := (angleParts value).1
  have hminutes : k / 10 ^ 7 ≤ 99 := by omega
  have hlength : (twoDigits (k / 10 ^ 7)).length = 2 := by
    rw [twoDigits_eq _ hminutes]
    rfl
  have hdigit : ∀ c ∈ zfill degWidth (decimal deg) ++ twoDigits (k / 10 ^ 7),
      decide (c ≠ '.') = true := by
    intro c hc
    have hnum : c = '0' ∨ c.isDigit = true := by
      simp only [zfill, twoDigits, List.mem_append, List.mem_replicate] at hc
      rcases hc with (⟨-, rfl⟩ | hc) | ⟨-, rfl⟩ | hc
      · exact Or.inl rfl
      · exact Or.inr (isDigit_toDigits _ _ hc)
      · exact Or.inl rfl
      · exact Or.inr (isDigit_toDigits _ _ hc)
    have hne : c ≠ '.' := by
      rintro rfl
      revert hnum
      decide
    simpa using hne
  have hwhole : digitsValue (zfill degWidth (decimal deg) ++ twoDigits (k / 10 ^ 7)) =
      some (deg * 10 ^ 2 + k / 10 ^ 7) := by
    rw [← hlength]
    exact digitsValue_append (digitsValue_zfill _ _) (digitsValue_twoDigits _)
  rw [readAngle, angle_eq hk, List.takeWhile_append_of_pos hdigit,
    List.dropWhile_append_of_pos hdigit]
  simp only [ne_eq, not_true_eq_false, decide_false, Bool.false_eq_true, not_false_eq_true,
    List.takeWhile_cons_of_neg, List.append_nil, List.dropWhile_cons_of_neg, List.tail_cons,
    hwhole, digitsValue_zfill, length_ten_millionths, Option.bind_eq_bind, Option.bind_some,
    Option.pure_def, Option.some.injEq]
  have hdeg : (deg * 10 ^ 2 + k / 10 ^ 7) / 100 = deg := by omega
  have hmin : (deg * 10 ^ 2 + k / 10 ^ 7) % 100 = k / 10 ^ 7 := by omega
  have hsplit : ((k / 10 ^ 7 : ℕ) : ℚ) * 10 ^ 7 + (k % 10 ^ 7 : ℕ) = k := by
    exact_mod_cast Nat.div_add_mod' k (10 ^ 7)
  rw [hdeg, hmin, hk]
  congr 1
  rw [← hsplit]
  field_simp

/-- The four fields of a position, as they are read. -/
theorem readPosition_latLon (lat lon : ℚ) {q : ℕ} (hq : q ≠ 0) :
    ∃ r, readPosition (latLon lat lon q) = some r ∧ |r.1 - lat| ≤ 1 / (120 * 10 ^ 7) ∧
      |r.2 - lon| ≤ 1 / (120 * 10 ^ 7) := by
  obtain ⟨a, ha, hlat⟩ := readAngle_angle 2 lat
  obtain ⟨b, hb, hlon⟩ := readAngle_angle 3 lon
  -- the sign goes to the hemisphere
  have hsigned : ∀ {r value : ℚ}, |r - abs value| ≤ 1 / (120 * 10 ^ 7) →
      |r * (if 0 ≤ value then 1 else -1) - value| ≤ 1 / (120 * 10 ^ 7) := by
    intro r value h
    split
    · next hpos =>
      rw [abs_of_nonneg hpos] at h
      rwa [mul_one]
    · next hneg =>
      have hsub : r * -1 - value = -(r - -value) := by ring
      rw [abs_of_neg (not_le.1 hneg)] at h
      rwa [hsub, abs_neg]
  have hns : readSign 'N' 'S' (if 0 ≤ lat then ['N'] else ['S']) =
      some (if 0 ≤ lat then 1 else -1) := by
    split <;> rfl
  have hew : readSign 'E' 'W' (if 0 ≤ lon then ['E'] else ['W']) =
      some (if 0 ≤ lon then 1 else -1) := by
    split <;> rfl
  refine ⟨(_, _), ?_, hsigned hlat, hsigned hlon⟩
  rw [latLon, if_neg hq, readPosition, ha, hb, hns, hew]
  rfl

/-- Fields that are left empty are no position. -/
theorem readPosition_latLon_zero (lat lon : ℚ) : readPosition (latLon lat lon 0) = none := by
  rw [latLon, if_pos rfl, readPosition]
  cases readAngle [] <;> rfl

/-- `read` is what is told of the position of `state`. -/
def TellsPosition (state : ReceiverState) (read : Option (ℚ × ℚ)) : Prop :=
  (quality state = 0 → read = none) ∧ (quality state ≠ 0 →
    ∃ lat ∈ state.position.lat, ∃ lon ∈ state.position.lon, ∃ r ∈ read,
      |r.1 - lat| ≤ 1 / (120 * 10 ^ 7) ∧ |r.2 - lon| ≤ 1 / (120 * 10 ^ 7))

theorem tellsPosition_latLon {state : ReceiverState} {lat lon : ℚ}
    (hlat : state.position.lat = some lat) (hlon : state.position.lon = some lon) :
    TellsPosition state (readPosition (latLon lat lon (quality state))) := by
  refine ⟨fun hq => ?_, fun hq => ?_⟩
  · rw [hq]
    exact readPosition_latLon_zero lat lon
  · obtain ⟨r, hr, hnear⟩ := readPosition_latLon lat lon hq
    exact ⟨lat, hlat, lon, hlon, r, hr, hnear⟩

/-- A GGA and an RMC sentence tell the position where the fix is valid, to half a digit of the
minutes as long as these are exact, and none where it is not. -/
theorem position_read (state : ReceiverState) (fields : Fields) :
    (gga state = some fields → TellsPosition state (readGga (sentence fields))) ∧
    (rmc state = some fields → TellsPosition state (readRmc (sentence fields))) := by
  have htake : ∀ lat lon q (rest : Fields), (latLon lat lon q ++ rest).take 4 = latLon lat lon q := by
    intro lat lon q rest
    unfold latLon
    split <;> rfl
  refine ⟨fun h => ?_, fun h => ?_⟩
  · have hplain := plainFields_gga h
    obtain ⟨lat, hlat, h⟩ := Option.bind_eq_some_iff.1 h
    obtain ⟨lon, hlon, h⟩ := Option.bind_eq_some_iff.1 h
    obtain ⟨t, -, h⟩ := Option.bind_eq_some_iff.1 h
    obtain rfl := Option.some.inj h
    rw [readGga, readFields_sentence hplain (by simp), List.append_assoc, List.cons_append,
      List.cons_append, List.nil_append, List.drop_succ_cons, List.drop_succ_cons, List.drop_zero, htake]
    exact tellsPosition_latLon hlat hlon
  · have hplain := plainFields_rmc h
    obtain ⟨lat, hlat, h⟩ := Option.bind_eq_some_iff.1 h
    obtain ⟨lon, hlon, h⟩ := Option.bind_eq_some_iff.1 h
    obtain ⟨t, -, h⟩ := Option.bind_eq_some_iff.1 h
    obtain rfl := Option.some.inj h
    rw [readRmc, readFields_sentence hplain (by simp), List.append_assoc, List.cons_append,
      List.cons_append, List.cons_append, List.nil_append, List.drop_succ_cons, List.drop_succ_cons,
      List.drop_succ_cons, List.drop_zero, htake]
    exact tellsPosition_latLon hlat hlon

/-- A valid fix, south of the equator. -/
def southFix : ReceiverState where
  position := { lat := some (-105 / 2), lon := some (27 / 2) }
  fix := { fixType := 3, gnssFixOk := true }
  utc := twoSatellites.utc

theorem position_read_southFix : ∃ gga' rmc', gga southFix = some gga' ∧
    TellsPosition southFix (readGga (sentence gga')) ∧ rmc southFix = some rmc' ∧
      TellsPosition southFix (readRmc (sentence rmc')) :=
  ⟨_, _, rfl, (position_read southFix _).1 rfl, rfl, (position_read southFix _).2 rfl⟩

end Reader

/-! ## The satellites -/

/-- A satellite as GSV tells it. -/
structure GsvSat where
  sv : ℕ
  elev : Option ℕ
  azim : Option ℕ
  cno : Option ℕ
  deriving DecidableEq

/-- A GSV sentence. -/
structure GsvMessage where
  address : Str
  total : ℕ
  number : ℕ
  inView : ℕ
  sats : List GsvSat
  signal : Str
  deriving DecidableEq

section Reader

variable [PyDigits]

/-- A number that may be left out. -/
def readOptional (field : Str) : Option (Option ℕ) :=
  if field = [] then some none else (digitsValue field).map some

/-- Satellites of four fields each, and the signal behind them. -/
def readSats : Fields → Option (List GsvSat × Str)
  | [signal] => some ([], signal)
  | sv :: elev :: azim :: cno :: rest => do
    let sat : GsvSat :=
      ⟨← digitsValue sv, ← readOptional elev, ← readOptional azim, ← readOptional cno⟩
    let (sats, signal) ← readSats rest
    return (sat :: sats, signal)
  | _ => none

/-- The message of the fields. -/
def readMessage : Fields → Option GsvMessage
  | address :: total :: number :: inView :: rest => do
    let (sats, signal) ← readSats rest
    return ⟨address, ← digitsValue total, ← digitsValue number, ← digitsValue inView, sats, signal⟩
  | _ => none

/-- A GSV sentence. -/
def readGsv (raw : List UInt8) : Option GsvMessage := readMessage (readFields raw)

end Reader

/-- What a consumer is told of a satellite. -/
def gsvView (s : ℕ × Satellite) : GsvSat where
  sv := s.1
  elev := s.2.elev.bind fun elev => if 0 ≤ elev ∧ elev ≤ 90 then some elev.toNat else none
  azim := s.2.elev.bind fun elev => if 0 ≤ elev ∧ elev ≤ 90 then
      s.2.azim.bind fun azim => if 0 ≤ azim ∧ azim ≤ 360 then some (azim % 360).toNat else none
    else none
  cno := if s.2.cno = 0 then none else some s.2.cno

/-- The messages of one constellation. -/
def gsvMessages (system : Talker) (sats : List (ℕ × Satellite)) : List GsvMessage :=
  let chunks := Bisect.chunked 4 sats
  chunks.zipIdx.map fun (chunk, i) =>
    ⟨system.talker ++ "GSV".toList, chunks.length, i + 1, sats.length, chunk.map gsvView,
      hexText system.signalId⟩

/-- Of lists that are put together, those with a key are the one list that has it. -/
theorem filter_flatMap {α β κ : Type*} [DecidableEq κ] {l : List α} {f : α → List β} {key : β → κ}
    {k : α → κ} (hkey : ∀ a ∈ l, ∀ b ∈ f a, key b = k a) (hnodup : (l.map k).Nodup) {a : α}
    (ha : a ∈ l) : (l.flatMap f).filter (fun b => key b = k a) = f a := by
  induction l with
  | nil => exact absurd ha List.not_mem_nil
  | cons x l ih =>
    obtain ⟨hx, hl⟩ := List.forall_mem_cons.1 hkey
    obtain ⟨hout, hnodup⟩ := List.nodup_cons.1 hnodup
    rw [List.flatMap_cons, List.filter_append]
    rcases List.mem_cons.1 ha with rfl | ha
    · have hall : (f a).filter (fun b => key b = k a) = f a :=
        List.filter_eq_self.2 fun b hb => by simpa using hx b hb
      have hnone : (l.flatMap f).filter (fun b => key b = k a) = [] := by
        refine List.filter_eq_nil_iff.2 fun b hb => ?_
        obtain ⟨y, hy, hb⟩ := List.mem_flatMap.1 hb
        rw [hl y hy b hb]
        simpa using fun heq : k y = k a => hout (heq ▸ List.mem_map_of_mem hy)
      rw [hall, hnone, List.append_nil]
    · have hnone : (f x).filter (fun b => key b = k a) = [] := by
        refine List.filter_eq_nil_iff.2 fun b hb => ?_
        rw [hx b hb]
        simpa using fun heq : k x = k a => hout (heq ▸ List.mem_map_of_mem ha)
      rw [hnone, ih hl hnodup ha, List.nil_append]

/-- The constellations as a reader knows them, with the address of their GSV sentences and the
signal these are about. -/
def gsvSystems : List (String × Str × Str) :=
  [("GPS", "GPGSV".toList, ['1']), ("GLONASS", "GLGSV".toList, ['1']),
    ("Galileo", "GAGSV".toList, ['7']), ("BeiDou", "GBGSV".toList, ['1']),
    ("QZSS", "GQGSV".toList, ['1'])]

/-- The satellites of a constellation that NMEA has a number for. The slots of GLONASS are numbered
from 65 on, an unknown slot is not. -/
def numbered (gnss : String) (sats : List Satellite) : List (ℕ × Satellite) :=
  if gnss = "GLONASS" then
    (sats.filter fun sat => sat.gnss = gnss ∧ 1 ≤ sat.svId ∧ sat.svId ≤ 32).map fun sat =>
      (sat.svId + 64, sat)
  else (sats.filter fun sat => sat.gnss = gnss).map fun sat => (sat.svId, sat)

/-- They are the group of `_by_system`. -/
theorem group_eq (system : Talker) (sats : List Satellite) :
    group sats system = numbered system.gnss sats := by
  induction sats with
  | nil => simp [group, numbered]
  | cons sat sats ih =>
    have hcons : group (sat :: sats) system =
        (if sat.gnss = system.gnss then (nmeaSv sat).map (·, sat) else none).toList ++
          group sats system := by
      rw [group, List.filterMap_cons]
      split
      · next hnone => rw [hnone]; rfl
      · next hsome => rw [hsome]; rfl
    rw [hcons, ih]
    by_cases hgnss : sat.gnss = system.gnss
    · by_cases hglonass : system.gnss = "GLONASS"
      · by_cases hslot : 1 ≤ sat.svId ∧ sat.svId ≤ 32 <;>
          simp [numbered, nmeaSv, hgnss, hglonass, hslot]
      · simp [numbered, nmeaSv, hgnss, hglonass]
    · simp [numbered, hgnss]

/-- The sentences of all constellations, of those without a satellite none. -/
theorem gsv_eq (state : ReceiverState) :
    gsv state = systemTalker.flatMap fun system => gsvOf system (group state.sats system) := by
  have hdrop : ∀ l : List (Talker × List (ℕ × Satellite)),
      (l.filter fun g => g.2 ≠ []).flatMap (fun g => gsvOf g.1 g.2) =
        l.flatMap fun g => gsvOf g.1 g.2 := by
    intro l
    induction l with
    | nil => rfl
    | cons g l ih =>
      by_cases hg : g.2 = []
      · have hnone : gsvOf g.1 g.2 = [] := by rw [hg]; rfl
        rw [List.filter_cons_of_neg (by simpa using hg), List.flatMap_cons, hnone, ih,
          List.nil_append]
      · rw [List.filter_cons_of_pos (by simpa using hg), List.flatMap_cons, List.flatMap_cons, ih]
  rw [gsv, bySystem, hdrop, List.flatMap_map]

theorem length_le_of_mem_chunked {sats chunk : List (ℕ × Satellite)}
    (h : chunk ∈ Bisect.chunked 4 sats) : chunk ≠ [] ∧ chunk.length ≤ 4 := by
  obtain ⟨i, hi, rfl⟩ := List.mem_map.1 h
  have hi : i < (sats.length + 4 - 1) / 4 := List.mem_range.1 hi
  have hlong : i * 4 < sats.length := by omega
  refine ⟨?_, List.length_take_le _ _⟩
  rw [← List.length_pos_iff, List.length_take, List.length_drop]
  omega

section Read

variable [PyDigits]

@[simp] theorem readOptional_nil : readOptional [] = some none := rfl

theorem readOptional_of_ne {field : Str} {n : ℕ} (hne : field ≠ [])
    (h : digitsValue field = some n) : readOptional field = some (some n) := by
  rw [readOptional, if_neg hne, h]
  rfl

/-- The four fields of a satellite are read back. -/
theorem readSats_group (s : ℕ × Satellite) (rest : Fields) :
    readSats (gsvGroup s ++ rest) = (readSats rest).map fun r => (gsvView s :: r.1, r.2) := by
  have hcno : readOptional (if s.2.cno = 0 then [] else twoDigits s.2.cno) =
      some (gsvView s).cno := by
    simp only [gsvView]
    split_ifs
    · rfl
    · exact readOptional_of_ne (twoDigits_ne_nil _) (digitsValue_twoDigits _)
  obtain ⟨e, a, hangles, he, ha⟩ : ∃ e a, gsvAngles s.2 = [e, a] ∧
      readOptional e = some (gsvView s).elev ∧ readOptional a = some (gsvView s).azim := by
    unfold gsvAngles gsvView
    have hread : ∀ n, readOptional (twoDigits n) = some (some n) := fun n =>
      readOptional_of_ne (twoDigits_ne_nil n) (digitsValue_twoDigits n)
    have hread' : ∀ n, readOptional (zfill 3 (decimal n)) = some (some n) := fun n =>
      readOptional_of_ne (zfill_decimal_ne_nil 3 n) (digitsValue_zfill 3 n)
    cases s.2.elev with
    | none => exact ⟨[], [], rfl, rfl, rfl⟩
    | some elev =>
      by_cases helev : elev < 0 ∨ 90 < elev
      · have hout : ¬(0 ≤ elev ∧ elev ≤ 90) := by omega
        exact ⟨[], [], by simp [helev], by simp [hout], by simp [hout]⟩
      · have hin : 0 ≤ elev ∧ elev ≤ 90 := by omega
        cases s.2.azim with
        | none => exact ⟨twoDigits elev.toNat, [], by simp [helev], by simp [hin, hread], by simp⟩
        | some azim =>
          by_cases hazim : azim < 0 ∨ 360 < azim
          · have hout : ¬(0 ≤ azim ∧ azim ≤ 360) := by omega
            exact ⟨twoDigits elev.toNat, [], by simp [helev, hazim], by simp [hin, hread],
              by simp [hout]⟩
          · have hin' : 0 ≤ azim ∧ azim ≤ 360 := by omega
            exact ⟨twoDigits elev.toNat, zfill 3 (decimal (azim % 360).toNat), by simp [helev, hazim],
              by simp [hin, hread], by simp [hin, hin', hread']⟩
  rw [gsvGroup, hangles]
  simp only [List.cons_append, List.nil_append, readSats, digitsValue_twoDigits, he, ha, hcno]
  cases readSats rest <;> rfl

theorem readSats_groups (chunk : List (ℕ × Satellite)) (signal : Str) :
    readSats (chunk.flatMap gsvGroup ++ [signal]) = some (chunk.map gsvView, signal) := by
  induction chunk with
  | nil => rfl
  | cons s chunk ih =>
    rw [List.flatMap_cons, List.append_assoc, readSats_group, ih]
    rfl

/-- The sentences of a constellation are read as its messages. -/
theorem readGsv_gsvOf {system : Talker} (hsystem : system ∈ systemTalker)
    (sats : List (ℕ × Satellite)) :
    (gsvOf system sats).map (fun fields => readGsv (sentence fields)) =
      (gsvMessages system sats).map some := by
  simp only [gsvOf, gsvMessages, List.map_map]
  refine List.map_congr_left fun ⟨chunk, i⟩ _ => ?_
  have hplain : PlainFields ([system.talker ++ "GSV".toList,
      decimal (Bisect.chunked 4 sats).length, decimal (i + 1), twoDigits sats.length] ++
        chunk.flatMap gsvGroup ++ [hexText system.signalId]) :=
    plainFields_gsvChunk hsystem _ _ _ _
  change readGsv (sentence _) = _
  rw [readGsv, readFields_sentence hplain (by simp)]
  simp only [List.cons_append, List.nil_append, readMessage, readSats_groups]
  simp

/-- What is read of the sentences of an epoch. Every constellation has its satellites in order, as
many in a sentence as fit, and its sentences are numbered from one on. -/
theorem gsv_read (state : ReceiverState) : ∃ messages : List GsvMessage,
    (gsv state).map (fun fields => readGsv (sentence fields)) = messages.map some ∧
    (∀ m ∈ messages, (∃ system ∈ gsvSystems, m.address = system.2.1) ∧ m.sats ≠ [] ∧
      m.sats.length ≤ 4) ∧
    ∀ system ∈ gsvSystems,
      let own := messages.filter fun m => m.address = system.2.1
      own.flatMap GsvMessage.sats = (numbered system.1 state.sats).map gsvView ∧
      own.map GsvMessage.number = List.range' 1 own.length ∧
      ∀ m ∈ own, m.total = own.length ∧ m.inView = (numbered system.1 state.sats).length ∧
        m.signal = system.2.2 := by
  have hsystems : gsvSystems = systemTalker.map fun system =>
      (system.gnss, system.talker ++ "GSV".toList, hexText system.signalId) := by
    decide +kernel
  refine ⟨systemTalker.flatMap fun system => gsvMessages system (numbered system.gnss state.sats),
    ?_, ?_, ?_⟩
  · rw [gsv_eq, List.map_flatMap, List.map_flatMap]
    exact List.flatMap_congr fun system hsystem => by
      rw [readGsv_gsvOf hsystem, group_eq]
  · intro m hm
    obtain ⟨system, hsystem, hm⟩ := List.mem_flatMap.1 hm
    obtain ⟨⟨chunk, i⟩, hchunk, rfl⟩ := List.mem_map.1 hm
    obtain ⟨hne, hlen⟩ := length_le_of_mem_chunked (List.fst_mem_of_mem_zipIdx hchunk)
    refine ⟨⟨(system.gnss, system.talker ++ "GSV".toList, hexText system.signalId), ?_, rfl⟩,
      by simpa using hne, by simpa using hlen⟩
    rw [hsystems]
    exact List.mem_map_of_mem hsystem
  · rw [hsystems, List.forall_mem_map]
    intro system hsystem
    have hnodup : (systemTalker.map fun system => system.talker ++ "GSV".toList).Nodup := by decide
    have hkey : ∀ system ∈ systemTalker,
        ∀ m ∈ gsvMessages system (numbered system.gnss state.sats),
          m.address = system.talker ++ "GSV".toList := by
      intro system _ m hm
      obtain ⟨x, -, rfl⟩ := List.mem_map.1 hm
      rfl
    have hown := filter_flatMap hkey hnodup hsystem
    simp only [hown]
    generalize numbered system.gnss state.sats = sats
    have hlength : (gsvMessages system sats).length = (Bisect.chunked 4 sats).length := by
      simp [gsvMessages]
    refine ⟨?_, ?_, ?_⟩
    · have hsats : (gsvMessages system sats).map GsvMessage.sats =
          (Bisect.chunked 4 sats).map (List.map gsvView) := by
        rw [gsvMessages, List.map_map]
        conv_rhs => rw [← List.zipIdx_map_fst 0 (Bisect.chunked 4 sats), List.map_map]
        rfl
      rw [List.flatMap_def, hsats, ← List.map_flatten, Bisect.flatten_chunked (by decide)]
    · rw [hlength, gsvMessages, List.map_map, List.range'_eq_map_range]
      have hidx : ((Bisect.chunked 4 sats).zipIdx.map fun x => x.2) =
          List.range (Bisect.chunked 4 sats).length := by
        rw [List.zipIdx_map_snd, List.range_eq_range']
      rw [← hidx, List.map_map]
      exact List.map_congr_left fun x _ => Nat.add_comm _ _
    · intro m hm
      obtain ⟨x, -, rfl⟩ := List.mem_map.1 hm
      exact ⟨hlength.symm, rfl, rfl⟩

end Read

end Nmea

end Mtrtk
