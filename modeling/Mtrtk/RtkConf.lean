import Mtrtk.Alerts
import Mtrtk.Dict
import Mtrtk.EnvFile

/-!
# Option files for `rnx2rtkp`

`ppk/rtkconf.py` : `render_conf_with_notes` writes an option file from the base options, those of
the detected build, the base position and the caller's overrides, which it has checked ;
`parse_conf` reads one back.

The check refuses what ends a line for RTKLIB, and what begins a comment. `parse_conf` takes the
lines of `str.splitlines`, which end at more than that. What this does to the round trip is in
`RtkConfRoundTrip`.
-/

namespace Mtrtk

open EnvFile

namespace RtkConf

/-! ## Options -/

/-- Items written as string literals. -/
def items (l : List (String × String)) : Dict Str Str := l.map fun a => (a.1.toList, a.2.toList)

/-- `BASE_OPTIONS`. -/
def baseOptions : Dict Str Str := items
  [("pos1-posmode", "kinematic"), ("pos1-frequency", "l1+l2"), ("pos1-soltype", "combined"),
    ("pos1-elmask", "15"), ("pos1-snrmask_r", "off"), ("pos1-snrmask_b", "off"),
    ("pos1-dynamics", "on"), ("pos1-tidecorr", "off"), ("pos1-ionoopt", "brdc"),
    ("pos1-tropopt", "saas"), ("pos1-sateph", "brdc"), ("pos1-navsys", "45"),
    ("pos2-armode", "fix-and-hold"), ("pos2-gloarmode", "on"), ("pos2-bdsarmode", "on"),
    ("pos2-arthres", "3"), ("pos2-arlockcnt", "5"), ("pos2-arelmask", "15"),
    ("pos2-arminfix", "10"), ("pos2-elmaskhold", "15"), ("pos2-aroutcnt", "20"),
    ("pos2-maxage", "30"), ("pos2-rejionno", "1"), ("pos2-rejgdop", "30"),
    ("pos2-slipthres", "0.05"), ("pos2-niter", "1"), ("out-solformat", "llh"),
    ("out-outhead", "on"), ("out-outopt", "on"), ("out-timesys", "gpst"), ("out-timeform", "hms"),
    ("out-timendec", "3"), ("out-degform", "deg"), ("out-height", "ellipsoidal"),
    ("out-outstat", "residual"), ("out-solstatic", "all"), ("stats-errphase", "0.003"),
    ("stats-errphaseel", "0.003"), ("stats-prnaccelh", "3"), ("stats-prnaccelv", "1"),
    ("ant2-postype", "xyz"), ("ant2-maxaveep", "1"), ("misc-timeinterp", "off")]

/-- `DEMO5_OPTIONS`. -/
def demo5Options : Dict Str Str := items
  [("pos2-arfilter", "on"), ("pos2-arthresmin", "3"), ("pos2-arthresmax", "3"),
    ("pos2-arthres1", "0.1"), ("pos2-varholdamb", "0.1"), ("pos2-gainholdamb", "0.01"),
    ("pos2-minfixsats", "4"), ("pos2-minholdsats", "5"), ("pos2-mindropsats", "10"),
    ("stats-eratio1", "300"), ("stats-eratio2", "300")]

/-- `_DEMO5_PROBE`. -/
def demo5Probe : Str := "pos2-arfilter".toList

/-- `_CORE_PROBE`. -/
def coreProbe : Str := "pos1-posmode".toList

/-- `Build`. -/
inductive Build
  | demo5 | stock | unknown
  deriving DecidableEq, Repr

/-- `detect_build`, of the option names the executable has in it. -/
def detectBuild (names : List Str) : Build :=
  if names.contains demo5Probe then .demo5
  else if names.contains coreProbe then .stock
  else .unknown

/-- The key of the frequencies. -/
def frequencyKey : Str := "pos1-frequency".toList

/-- `_FREQUENCY_ENUM`. -/
def frequencyEnum : Dict Str Str := items
  [("l1", "1"), ("l1+l2", "2"), ("l1+2", "2"), ("l1+l2+l5", "3"), ("l1+2+3", "3"),
    ("l1+l2+l5+l6", "4"), ("l1+2+3+4", "4")]

/-- The key of the mode for GLONASS. -/
def gloarmodeKey : Str := "pos2-gloarmode".toList

/-- `_STOCK_FALLBACK` : what stock does not know of a key, and what is used instead. -/
def stockFallback : List (Str × List Str × Str) :=
  [(gloarmodeKey, ["autocal".toList, "fix-and-hold".toList], "off".toList)]

/-- The key of the navigation systems. -/
def navsysKey : Str := "pos1-navsys".toList

/-- `_NAVSYS_QZSS_BIT`. -/
def navsysQzssBit : ℕ := 16

/-! ## Checks -/

/-- What a `ValueError` is about. -/
inductive ConfError
  | base
  | key (key : Str)
  | value (key : Str)
  deriving DecidableEq

/-- `_check_base`, of three finite metres. -/
def checkBase (x y z : ℚ) : Except ConfError Unit :=
  let square := x * x + y * y + z * z
  if 6200000 ^ 2 ≤ square ∧ square ≤ 6500000 ^ 2 then .ok () else .error .base

/-- `[a-z0-9]`. -/
def isGroupChar (c : Char) : Bool :=
  let n := c.toNat
  (0x61 ≤ n && n ≤ 0x7A) || (0x30 ≤ n && n ≤ 0x39)

/-- `_KEY_RE.fullmatch`. -/
def isOptionKey (key : Str) : Bool :=
  match cut '-' key with
  | some (group, name) => group ≠ [] ∧ group.all isGroupChar ∧ name ≠ [] ∧ name.all isKeyChar
  | none => false

/-- `_VALUE_FORBIDDEN`. -/
def valueForbidden : List Char := ['\r', '\n', Char.ofNat 0, '#']

/-- `_VALUE_MAX`. -/
def valueMax : ℕ := 1024

/-- `_check_overrides`. -/
def checkOverrides : Dict Str Str → Except ConfError Unit
  | [] => .ok ()
  | (key, value) :: overrides =>
    if isOptionKey key = false then .error (.key key)
    else if valueMax < value.length ∨ value.any (· ∈ valueForbidden) then .error (.value key)
    else checkOverrides overrides

/-! ## The text -/

/-- The options before the overrides. -/
def givenOptions (x y z : ℚ) (glonassAr : Str) (includeQzss : Bool) (build : Build) :
    Dict Str Str :=
  let options := Dict.set baseOptions gloarmodeKey glonassAr
  let options :=
    if includeQzss then Dict.set options navsysKey (toString (45 ||| navsysQzssBit)).toList
    else options
  let options := if build = .demo5 then Dict.updateAll options demo5Options else options
  let options := Dict.set options "ant2-pos1".toList (fixedText 4 x).toList
  let options := Dict.set options "ant2-pos2".toList (fixedText 4 y).toList
  Dict.set options "ant2-pos3".toList (fixedText 4 z).toList

/-- What is written for a value of `pos1-frequency`. -/
def frequencyText (freq : Str) : Str := (Dict.get frequencyEnum freq).getD freq

/-- The options before they are fitted to the build. -/
def confOptions (x y z : ℚ) (overrides : Dict Str Str) (glonassAr : Str) (includeQzss : Bool)
    (build : Build) : Dict Str Str :=
  let options := Dict.updateAll (givenOptions x y z glonassAr includeQzss build) overrides
  match Dict.get options frequencyKey with
  | some freq => Dict.set options frequencyKey (frequencyText freq)
  | none => options

/-- The body of the loop of `_to_stock`. -/
def stockStep (s : Dict Str Str × List Str) (fallback : Str × List Str × Str) :
    Dict Str Str × List Str :=
  match Dict.get s.1 fallback.1 with
  | some value =>
    if fallback.2.1.contains value then
      (Dict.set s.1 fallback.1 fallback.2.2,
        s.2 ++ [fallback.1 ++ '=' :: value ++ " needs RTKLIB demo5; this build gets ".toList ++
          fallback.2.2])
    else s
  | none => s

/-- `_to_stock` : the options, and the notes. -/
def toStock (options : Dict Str Str) : Dict Str Str × List Str :=
  stockFallback.foldl stockStep (options, [])

/-- The options for the build, and the notes. -/
def fitted (options : Dict Str Str) (build : Build) (binary : Str) : Dict Str Str × List Str :=
  match build with
  | .demo5 => (options, [])
  | .stock => toStock options
  | .unknown =>
    (options, [binary ++ (" was not recognised as RTKLIB demo5 or stock 2.4.3; ".toList ++
      "the demo5 tunables were left out".toList)])

/-- `f"{key:<20}={value}"`. -/
def optionLine (key value : Str) : Str :=
  key ++ List.replicate (20 - key.length) ' ' ++ '=' :: value

/-- The first line. -/
def titleLine : Str := "# rnx2rtkp options generated by mtrtk (ZED-F9P kinematic PPK)".toList

/-- `f"# {note}"`. -/
def noteLine (note : Str) : Str := '#' :: ' ' :: note

/-- The lines of the file. -/
def confLines (options : Dict Str Str) (notes : List Str) : List Str :=
  titleLine :: notes.map noteLine ++ options.map fun a => optionLine a.1 a.2

/-- `render_conf_with_notes`, `names` are those the executable `binary` has in it. -/
def renderConf (x y z : ℚ) (overrides : Dict Str Str) (glonassAr : Str) (includeQzss : Bool)
    (binary : Str) (names : List Str) : Except ConfError (Str × List Str) := do
  checkBase x y z
  checkOverrides overrides
  let build := detectBuild names
  let options := confOptions x y z overrides glonassAr includeQzss build
  let (options, notes) := fitted options build binary
  return (joinLines (confLines options notes), notes)

/-! ## Reading back -/

/-- A line of `parse_conf`. -/
def parseConfLine (raw : Str) : Option (Str × Str) :=
  let line := strip (raw.takeWhile (· ≠ '#'))
  (cut '=' line).map fun kv => (strip kv.1, strip kv.2)

/-- The body of the loop of `parse_conf`. -/
def confStep (out : Dict Str Str) (raw : Str) : Dict Str Str :=
  match parseConfLine raw with
  | some (key, value) => Dict.set out key value
  | none => out

/-- `parse_conf`. -/
def parseConf (text : Str) : Dict Str Str := (splitlines text).foldl confStep []

end RtkConf

end Mtrtk
