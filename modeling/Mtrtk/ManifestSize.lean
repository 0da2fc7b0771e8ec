import Mathlib.Logic.Function.Iterate
import Mtrtk.JsonDump
import Mtrtk.Publish

/-!
# The size a manifest lists of itself

`rinex/export.py` : the manifest of an export lists its own file with the others, with the size it
has when that size is written in it. `_write_manifest` writes the size it had with the last one
until nothing changes, for ten rounds at most.

The size of the text is that of its decimal digits and what is written around them
(`size_manifest`). A number that is next to a power of ten changes its digits once, and then not
again (`size_settles`), so that four rounds are enough.
-/

namespace Mtrtk

/-- An item of `ExportResult.files`. -/
structure FileEntry where
  name : Str
  bytes : ℕ
  role : Str

def FileEntry.toJson (entry : FileEntry) : Json :=
  .dict [("name".toList, .str entry.name), ("bytes".toList, .int entry.bytes),
    ("role".toList, .str entry.role)]

/-- `ExportResult`. -/
structure ExportResult where
  files : List FileEntry
  obsEpochs : ℤ
  navMessages : ℤ
  intervalS : Option PyFloat
  version : Str
  preset : Str
  start : Str
  end_ : Str
  warnings : List Str
  createdUtc : Str

/-- `to_manifest`. -/
def ExportResult.toManifest (result : ExportResult) : Json :=
  .dict [("preset".toList, .str result.preset), ("version".toList, .str result.version),
    ("interval_s".toList, (result.intervalS.map Json.float).getD .null),
    ("start".toList, .str result.start), ("end".toList, .str result.end_),
    ("obs_epochs".toList, .int result.obsEpochs),
    ("nav_messages".toList, .int result.navMessages),
    ("files".toList, .list (result.files.map FileEntry.toJson)),
    ("warnings".toList, .list (result.warnings.map Json.str)),
    ("created_utc".toList, .str result.createdUtc)]

/-- The loop of `_write_manifest`, `bytes` being what the entry lists : the size it ends with and
the text, `none` where the rounds are used up. -/
def settle (text : ℕ → Str) : ℕ → ℕ → Option (ℕ × Str)
  | 0, _ => none
  | rounds + 1, bytes =>
    let size := (encode (text bytes)).length
    if size = bytes then some (bytes, text bytes) else settle text rounds size

/-- `entry`, with the size it lists. -/
def manifestEntry (bytes : ℕ) : FileEntry where
  name := manifestName
  bytes := bytes
  role := "manifest".toList

/-- The result once `entry` is appended to its files. -/
def ExportResult.listing (result : ExportResult) (bytes : ℕ) : ExportResult :=
  { result with files := result.files ++ [manifestEntry bytes] }

section Write

variable [PyRepr]

/-- `json.dumps(result.to_manifest(), indent=2)`. -/
def ExportResult.text (result : ExportResult) (bytes : ℕ) : Str :=
  (result.listing bytes).toManifest.dumps

/-- `_write_manifest` : the result as it leaves it and the text of the file, the error being the
text of the `ExportError`. -/
def writeManifest (result : ExportResult) : Except String (ExportResult × Str) :=
  match settle result.text 10 0 with
  | some (bytes, text) => .ok (result.listing bytes, text)
  | none => .error "manifest size did not settle"

end Write

/-! ## A size that counts its own digits -/

/-- How many decimal digits a number has. -/
def digitCount (n : ℕ) : ℕ := (Nat.toDigits 10 n).length

theorem digitCount_le_iff {n k : ℕ} (hk : 0 < k) : digitCount n ≤ k ↔ n < 10 ^ k :=
  Nat.length_toDigits_le_iff (by decide) hk

theorem digitCount_pos (n : ℕ) : 0 < digitCount n := Nat.length_toDigits_pos

theorem digitCount_mono {m n : ℕ} (h : m ≤ n) : digitCount m ≤ digitCount n :=
  (digitCount_le_iff (digitCount_pos n)).2
    (h.trans_lt ((digitCount_le_iff (digitCount_pos n)).1 le_rfl))

/-- The digits change once at most after the first time they count themselves. -/
theorem digitCount_settles (base : ℕ) :
    let size := fun n => base + digitCount n
    size (size (size 0)) = size (size 0) ∨ size (size (size (size 0))) = size (size (size 0)) := by
  intro size
  set k := digitCount (size 0) with hk
  have hfirst : size 0 = base + 1 := rfl
  have hk0 : 0 < k := digitCount_pos _
  have hsecond : size (size 0) = base + k := rfl
  have hbelow : size 0 < 10 ^ k := (digitCount_le_iff hk0).1 le_rfl
  have hkle : k ≤ size 0 := (digitCount_le_iff (by omega)).2 (Nat.lt_pow_self (by decide))
  have hpow : 10 ^ (k + 1) = 10 * 10 ^ k := Nat.pow_succ'
  have hlow : k ≤ digitCount (size (size 0)) := digitCount_mono (by omega)
  have hhigh : digitCount (size (size 0)) ≤ k + 1 := (digitCount_le_iff (by omega)).2 (by omega)
  rcases Nat.lt_or_ge k (digitCount (size (size 0))) with hmore | hsame
  · -- a power of ten lies between, and the next one is far away
    have hthird : size (size (size 0)) = base + (k + 1) := by
      change base + digitCount (size (size 0)) = _
      omega
    have hlow' : k + 1 ≤ digitCount (size (size (size 0))) :=
      (Nat.succ_le_of_lt hmore).trans (digitCount_mono (by omega))
    have hhigh' : digitCount (size (size (size 0))) ≤ k + 1 :=
      (digitCount_le_iff (by omega)).2 (by omega)
    right
    change base + digitCount (size (size (size 0))) = _
    omega
  · left
    change base + digitCount (size (size 0)) = _
    omega

/-- The loop ends where the size is what it was. -/
theorem settle_of_fixed {text : ℕ → Str} {size : ℕ → ℕ}
    (hsize : ∀ n, (encode (text n)).length = size n) {rounds i n : ℕ} (hi : i < rounds)
    (hfixed : size (size^[i] n) = size^[i] n) :
    ∃ m, settle text rounds n = some (m, text m) ∧ size m = m := by
  induction rounds generalizing i n with
  | zero => exact absurd hi (Nat.not_lt_zero i)
  | succ rounds ih =>
    by_cases hn : size n = n
    · exact ⟨n, by rw [settle, hsize, if_pos hn], hn⟩
    · rcases i with _ | i
      · exact absurd hfixed hn
      · obtain ⟨m, hm, hfix⟩ := @ih i (size n) (by omega) hfixed
        exact ⟨m, by rw [settle, hsize, if_neg hn, hm], hfix⟩

section Write

variable [PyRepr]

/-- What the text is made of : the digits, and what is around them. -/
theorem around_text (result : ExportResult) : Around result.text (Nat.toDigits 10) := by
  have hentry := Json.around_dict 2 [("name".toList, .str manifestName)]
    [("role".toList, .str "manifest".toList)] "bytes".toList fun bytes : ℕ => .int bytes
  have hfiles := (Json.around_list 1 (result.files.map FileEntry.toJson) []
    fun bytes => (manifestEntry bytes).toJson).trans hentry
  have hmanifest := (Json.around_dict 0
    [("preset".toList, .str result.preset), ("version".toList, .str result.version),
      ("interval_s".toList, (result.intervalS.map Json.float).getD .null),
      ("start".toList, .str result.start), ("end".toList, .str result.end_),
      ("obs_epochs".toList, .int result.obsEpochs),
      ("nav_messages".toList, .int result.navMessages)]
    [("warnings".toList, .list (result.warnings.map Json.str)),
      ("created_utc".toList, .str result.createdUtc)] "files".toList
    fun bytes => .list (result.files.map FileEntry.toJson ++ [(manifestEntry bytes).toJson])).trans
      hfiles
  have hdigits : ∀ bytes : ℕ, (Json.int bytes).dump 3 = Nat.toDigits 10 bytes := fun _ =>
    Nat.toList_repr
  simp only [hdigits] at hmanifest
  convert hmanifest using 2 with bytes
  rw [ExportResult.text, ExportResult.toManifest, ExportResult.listing, List.map_append]
  rfl

theorem isAscii_text (result : ExportResult) (bytes : ℕ) : IsAscii (result.text bytes) :=
  Json.dump_ascii 0 _

/-- The size of the manifest, by the size it lists. -/
theorem size_manifest (result : ExportResult) :
    ∃ base, ∀ n, (encode (result.text n)).length = base + digitCount n := by
  obtain ⟨before, behind, htext⟩ := around_text result
  refine ⟨before.length + behind.length, fun n => ?_⟩
  rw [(isAscii_text result n).length_encode, htext, List.length_append, List.length_append,
    digitCount]
  omega

end Write

end Mtrtk
