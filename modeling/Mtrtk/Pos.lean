import Mtrtk.PyNumber
import Mtrtk.TextLines

/-!
# Solution files

`ppk/pos.py` : `parse_pos` reads the lines of an RTKLIB solution, a record for each line with a time
and thirteen numbers, and skips what is a header, blank or malformed. Quality and number of
satellites are converted to integers after the check of the numbers, where nothing catches what
`int` raises : a line that says `nan` or `inf` there ends the parse (`quality_raises`).

`parsePos_iff` : it returns, with the records of the well-formed lines in order, and a text split
behind a line gives the records of both parts, just when no line has such a quality (`Numbered`).
-/

namespace Mtrtk

open EnvFile

/-! ## Times -/

/-- `[lo-hi]`. -/
def asciiIn (lo hi : ℕ) (c : Char) : Option ℕ :=
  if 0x30 + lo ≤ c.toNat ∧ c.toNat ≤ 0x30 + hi then some (c.toNat - 0x30) else none

section Times

variable [PyDigits]

/-- `%Y` : `\d\d\d\d`. -/
def yearField (s : Str) : Option ℕ := if s.length = 4 then digitsValue s else none

/-- `%m` : `1[0-2]|0[1-9]|[1-9]`. -/
def monthField : Str → Option ℕ
  | [a] => asciiIn 1 9 a
  | ['1', b] => (asciiIn 0 2 b).map (10 + ·)
  | ['0', b] => asciiIn 1 9 b
  | _ => none

/-- A digit of tens, and any digit. -/
def tensField (lo hi : ℕ) (a b : Char) : Option ℕ := do
  return 10 * (← asciiIn lo hi a) + (← PyDigits.digit b)

/-- `%d` : `3[0-1]|[1-2]\d|0[1-9]|[1-9]`. -/
def dayField : Str → Option ℕ
  | [a] => asciiIn 1 9 a
  | ['3', b] => (asciiIn 0 1 b).map (30 + ·)
  | ['0', b] => asciiIn 1 9 b
  | [a, b] => tensField 1 2 a b
  | _ => none

/-- `%H` : `2[0-3]|[0-1]\d|\d`. -/
def hourField : Str → Option ℕ
  | [a] => PyDigits.digit a
  | ['2', b] => (asciiIn 0 3 b).map (20 + ·)
  | [a, b] => tensField 0 1 a b
  | _ => none

/-- `%M` : `[0-5]\d|\d`. -/
def minuteField : Str → Option ℕ
  | [a] => PyDigits.digit a
  | [a, b] => tensField 0 5 a b
  | _ => none

/-- `%S` : `6[0-1]|[0-5]\d|\d`. -/
def secondField : Str → Option ℕ
  | ['6', b] => (asciiIn 0 1 b).map (60 + ·)
  | s => minuteField s

/-- `%f` : `[0-9]{1,6}`, in microseconds. -/
def fractionField (s : Str) : Option ℕ :=
  if s = [] ∨ 6 < s.length then none
  else s.foldlM (fun n c => (asciiIn 0 9 c).map (10 * n + ·)) 0 |>.map (· * 10 ^ (6 - s.length))

/-- `%S.%f`, or `%S`. -/
def secondsField (s : Str) : Option (ℕ × ℕ) :=
  match cut '.' s with
  | some (s, f) => do return (← secondField s, ← fractionField f)
  | none => do return (← secondField s, 0)

/-- `_parse_time`. -/
def parseTime (date clock : Str) : Option ℤ :=
  match split ['/'] date, split [':'] clock with
  | [y, mo, d], [h, mi, s] => do
    let (s, us) ← secondsField s
    (datetime (← yearField y) (← monthField mo) (← dayField d) (← hourField h) (← minuteField mi)
      s us).toOption
  | _, _ => none

end Times

/-! ## Records -/

/-- `PosRecord`. -/
structure PosRecord where
  time : ℤ
  lat : PyFloat
  lon : PyFloat
  height : PyFloat
  q : ℤ
  ns : ℤ
  sdn : PyFloat
  sde : PyFloat
  sdu : PyFloat
  sdne : PyFloat
  sdeu : PyFloat
  sdun : PyFloat
  age : PyFloat
  ratio : PyFloat
  deriving DecidableEq

/-- `_MIN_COLUMNS`. -/
def minColumns : ℕ := 15

/-- The record of a time and thirteen numbers. -/
def posRecord (time : ℤ) (n : List PyFloat) : Except PyError PosRecord := do
  let q ← (n.getD 3 .nan).toInt
  let ns ← (n.getD 4 .nan).toInt
  return {
    time, q, ns
    lat := n.getD 0 .nan, lon := n.getD 1 .nan, height := n.getD 2 .nan
    sdn := n.getD 5 .nan, sde := n.getD 6 .nan, sdu := n.getD 7 .nan
    sdne := n.getD 8 .nan, sdeu := n.getD 9 .nan, sdun := n.getD 10 .nan
    age := n.getD 11 .nan, ratio := n.getD 12 .nan }

/-- A number, and not `nan` or infinite. -/
def PyFloat.IsNumber (x : PyFloat) : Prop := ∃ q, x = .finite q

theorem toInt_ok_iff {x : PyFloat} : (∃ n, x.toInt = .ok n) ↔ x.IsNumber := by
  rcases x with q | _ | _ <;> simp [PyFloat.toInt, PyFloat.IsNumber]

theorem posRecord_ok_iff {time : ℤ} {n : List PyFloat} :
    (∃ record, posRecord time n = .ok record) ↔
      (n.getD 3 .nan).IsNumber ∧ (n.getD 4 .nan).IsNumber := by
  rw [← toInt_ok_iff, ← toInt_ok_iff]
  unfold posRecord
  rcases (n.getD 3 .nan).toInt with e | q
  · simp [bind, Except.bind]
  · rcases (n.getD 4 .nan).toInt with e | ns
    · simp [bind, Except.bind]
    · simp [bind, Except.bind, pure, Except.pure]

section Lines

variable [PyDigits]

/-- The time and the numbers of a line, unless it is skipped. -/
def solutionLine (raw : Str) : Option (ℤ × List PyFloat) :=
  let line := strip raw
  if line = [] ∨ line.head? = some '%' then none
  else if (fields line).length < minColumns then none
  else do
    let time ← parseTime ((fields line).getD 0 []) ((fields line).getD 1 [])
    let n ← ((((fields line).take minColumns).drop 2).mapM pyFloat).toOption
    return (time, n)

/-- The body of the loop of `iter_pos`. -/
def posLine (raw : Str) : Except PyError (Option PosRecord) :=
  match solutionLine raw with
  | none => .ok none
  | some (time, n) => (posRecord time n).map some

/-- `list(iter_pos(lines))`. -/
def iterPos : List Str → Except PyError (List PosRecord)
  | [] => .ok []
  | raw :: lines => do
    let record ← posLine raw
    let records ← iterPos lines
    return record.toList ++ records

/-- `parse_pos`. -/
def parsePos (text : Str) : Except PyError (List PosRecord) := iterPos (splitlines text)

/-! ## What it should return -/

/-- The record of a well-formed line : its quality and number of satellites are numbers too. -/
def recordOf (raw : Str) : Option PosRecord :=
  (solutionLine raw).bind fun s => (posRecord s.1 s.2).toOption

/-- Where a line has a time and its numbers, the quality and the number of satellites are
numbers. -/
def Numbered (raw : Str) : Prop :=
  ∀ time n, solutionLine raw = some (time, n) →
    (n.getD 3 .nan).IsNumber ∧ (n.getD 4 .nan).IsNumber

/-- A text that ends where a line ends. -/
def EndsLine (text : Str) : Prop := ∀ c, text.getLast? = some c → isLineBreak c = true

/-- A line is read just when its quality and number of satellites are numbers. -/
theorem posLine_ok_iff {raw : Str} : (∃ record, posLine raw = .ok record) ↔ Numbered raw := by
  unfold posLine Numbered
  rcases solutionLine raw with _ | ⟨time, n⟩
  · simp
  · have hmap : (∃ record, (posRecord time n).map some = .ok record) ↔
        ∃ record, posRecord time n = .ok record := by
      rcases posRecord time n with e | record <;> simp [Except.map]
    simpa [posRecord_ok_iff] using hmap

theorem posLine_eq {raw : Str} {record : Option PosRecord} (h : posLine raw = .ok record) :
    record = recordOf raw := by
  unfold posLine at h
  unfold recordOf
  rcases hsol : solutionLine raw with _ | ⟨time, n⟩
  · rw [hsol] at h
    simpa using h.symm
  · rw [hsol] at h
    rcases hpos : posRecord time n with e | r
    · simp [hpos, Except.map] at h
    · simp only [hpos, Except.map, Except.ok.injEq] at h
      simp [← h, hpos, Except.toOption]

/-- The lines are read just when each of them is, and then the records are theirs. -/
theorem iterPos_ok_iff {lines : List Str} {records : List PosRecord} :
    iterPos lines = .ok records ↔
      (∀ raw ∈ lines, Numbered raw) ∧ records = lines.filterMap recordOf := by
  induction lines generalizing records with
  | nil => simp [iterPos, eq_comm]
  | cons raw lines ih =>
    rw [iterPos, List.forall_mem_cons, ← posLine_ok_iff]
    rcases hline : posLine raw with e | record
    · simp [bind, Except.bind]
    · rw [List.filterMap_cons, ← posLine_eq hline]
      rcases hrest : iterPos lines with e | rest
      · have hnot : ¬∀ raw ∈ lines, Numbered raw := fun hall => by
          have := ih.2 ⟨hall, rfl⟩
          rw [hrest] at this
          cases this
        simp [bind, Except.bind, hnot]
      · obtain ⟨hall, rfl⟩ := ih.1 hrest
        rcases record with _ | record
        · simpa [bind, Except.bind, pure, Except.pure, eq_comm] using fun _ => hall
        · simpa [bind, Except.bind, pure, Except.pure, eq_comm] using fun _ => hall

theorem iterPos_nil_cons (lines : List Str) : iterPos ([] :: lines) = iterPos lines := by
  have hline : posLine [] = .ok none := rfl
  rw [iterPos, hline]
  rcases iterPos lines with e | records <;> rfl

theorem iterPos_splitlinesFrom (cr : Bool) (text : Str) :
    iterPos (splitlinesFrom [] cr text) = parsePos text := by
  rw [parsePos, splitlines]
  rcases text with _ | ⟨c, text⟩
  · rfl
  · rw [splitlinesFrom, splitlinesFrom]
    by_cases hc : c = '\n'
    · subst hc
      rcases cr with _ | _
      · rfl
      · simpa [isLineBreak] using (iterPos_nil_cons _).symm
    · simp [hc]

/-- The lines of a text split where one ends are those of both parts. -/
theorem parsePos_append {a b : Str} (ha : EndsLine a) {records : List PosRecord}
    (h : parsePos (a ++ b) = .ok records) :
    ∃ ra rb, parsePos a = .ok ra ∧ parsePos b = .ok rb ∧ records = ra ++ rb := by
  rcases List.eq_nil_or_concat' a with rfl | ⟨a, c, rfl⟩
  · exact ⟨[], records, rfl, h, rfl⟩
  · have hc : isLineBreak c = true := ha c (by simp)
    have hsplit : splitlines (a ++ [c] ++ b) =
        splitlines (a ++ [c]) ++ splitlinesFrom [] (c = '\r') b := by
      rw [splitlines, List.append_assoc]
      exact splitlinesFrom_append hc (by simp) b
    rw [parsePos, hsplit, iterPos_ok_iff] at h
    obtain ⟨hall, rfl⟩ := h
    refine ⟨_, _, iterPos_ok_iff.2 ⟨fun raw hraw => hall raw (List.mem_append_left _ hraw), rfl⟩,
      ?_, List.filterMap_append⟩
    rw [← iterPos_splitlinesFrom (decide (c = '\r')) b]
    exact iterPos_ok_iff.2 ⟨fun raw hraw => hall raw (List.mem_append_right _ hraw), rfl⟩

end Lines

/-- A line whose quality is not a number ends the parse with an exception. -/
theorem quality_raises :
    @parsePos .ascii ("2026/09/18 20:23:27.998 47.1 19.2 120.5 nan 12 ".toList ++
      "0.01 0.01 0.02 0.0 0.0 0.0 0.0 5.0".toList) = .error .value := by
  decide +kernel

section Lines

variable [PyDigits]

/-- Parsing returns, with the records of the well-formed lines in order, and of a text split where
a line ends with the records of both parts, just when no line with a time and its numbers has
`nan` or an infinite number for its quality or its number of satellites. -/
theorem parsePos_iff (text : Str) :
    (∃ records, parsePos text = .ok records ∧
        records = (splitlines text).filterMap recordOf ∧
        ∀ a b, text = a ++ b → EndsLine a →
          ∃ ra rb, parsePos a = .ok ra ∧ parsePos b = .ok rb ∧ records = ra ++ rb) ↔
      ∀ raw ∈ splitlines text, Numbered raw := by
  constructor
  · rintro ⟨records, hparse, -⟩
    exact (iterPos_ok_iff.1 hparse).1
  · intro hall
    have hparse : parsePos text = .ok ((splitlines text).filterMap recordOf) :=
      iterPos_ok_iff.2 ⟨hall, rfl⟩
    refine ⟨_, hparse, rfl, ?_⟩
    rintro a b rfl ha
    exact parsePos_append ha hparse

end Lines

/-- A header is skipped, and a fraction of a second kept. -/
example : (@parsePos .ascii ("% program : rnx2rtkp\n2026/09/18 20:23:27.998 ".toList ++
      "47.1 19.2 120.5 1 12 0.01 0.01 0.02 0.0 0.0 0.0 0.0 5.0\n".toList)).map
        (fun records => records.map fun r => (r.time, r.q)) =
    .ok [(63925359807998000, 1)] := by
  decide +kernel

end Mtrtk
