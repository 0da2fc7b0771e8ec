import Mathlib.Data.Int.Bitwise
import Mathlib.Data.Nat.Bitwise
import Mtrtk.Dict
import Mtrtk.IntText
import Mtrtk.VnFields

/-!
# The output registers of a VectorNav unit

`rover/drivers/vectornav/registers.py` : what a binary output carries is written to a register as a
list of texts, the set of the groups followed by a word for each, in the order of their bits
(`encodeBinaryOutput`), and read back (`decodeBinaryOutput`). Bit 15 of the word of a GPS group says
that an extension word follows. A word is a Python integer, of any size and sign.

The reader goes through the bits, the writer through the groups it has been given, sorted. Bit for
bit the reader finds the words of the group that is next (`readGroups_eq`), and so it finds what was
written, whatever order the groups were given in (`decode_encode`).
-/

namespace Mtrtk

namespace Vn

/-- `GROUP_BITS`. -/
def groupBits : Dict Str ℕ :=
  [("common".toList, 0), ("time".toList, 1), ("imu".toList, 2), ("gps".toList, 3),
    ("attitude".toList, 4), ("ins".toList, 5), ("gps2".toList, 6)]

/-- `GROUP_BITS["gps"]`. -/
def gpsBit : ℕ := 3

/-- `GROUP_NAMES[g]`. -/
def groupName (g : ℕ) : Str := ((groupBits.find? fun a => a.2 = g).map Prod.fst).getD []

/-- `BinaryOutputConf`. -/
structure BinaryOutputConf where
  asyncMode : ℤ
  divisor : ℤ
  fields : Dict Str ℤ := []
  gpsExt : Option ℤ := none

/-- What is raised : `KeyError`, `ValueError`, `IndexError`. -/
inductive RegisterError
  | key | value | index
  deriving DecidableEq, Repr

/-- An error of a number is a `ValueError`. -/
def number {α : Type*} : Except PyError α → Except RegisterError α
  | .ok a => .ok a
  | .error _ => .error .value

/-! ## Writing -/

/-- The bit of a group and its mask. -/
def groupItem (a : Str × ℤ) : Except RegisterError (ℕ × ℤ) :=
  match groupBits.get a.1 with
  | some g => .ok (g, a.2)
  | none => .error .key

/-- The words of a group. -/
def groupWords (gpsExt : Option ℤ) (g : ℕ) (mask : ℤ) : List ℤ :=
  let mask := mask.ldiff extFlag
  match gpsExt with
  | some ext => if g = gpsBit ∧ ext ≠ 0 then [mask.lor extFlag, ext] else [mask]
  | none => [mask]

/-- `groups |= 1 << g`, for each. -/
def groupSet (bits : List ℕ) : ℕ := bits.foldl (fun groups g => groups ||| 1 <<< g) 0

/-- `encode_binary_output`. -/
def encodeBinaryOutput (conf : BinaryOutputConf) : Except RegisterError (List Str) := do
  let items := Keyed.sortBy Prod.fst (← conf.fields.mapM groupItem)
  let words := items.flatMap fun a => groupWords conf.gpsExt a.1 a.2
  return [← number (pyStr conf.asyncMode), ← number (pyStr conf.divisor),
    hexText (groupSet (items.map Prod.fst))] ++ words.map hexText

/-! ## Reading -/

section Read

variable [PyDigits]

/-- `values[i]`. -/
def textAt (values : List Str) (i : ℕ) : Except RegisterError Str :=
  match values[i]? with
  | some text => .ok text
  | none => .error .index

/-- The loop over the bits, of which these are left. -/
def readGroups (groups : ℤ) : List ℕ → List ℤ → Dict Str ℤ → Option ℤ →
    Except RegisterError (Dict Str ℤ × Option ℤ)
  | [], _, fields, gpsExt => .ok (fields, gpsExt)
  | g :: gs, words, fields, gpsExt =>
    if groups.land (1 <<< g : ℕ) = 0 then readGroups groups gs words fields gpsExt
    else
      match words with
      | [] => .error .index
      | mask :: words =>
        let fields := fields.set (groupName g) (mask.ldiff extFlag)
        if mask.land extFlag ≠ 0 ∧ isGps g then
          match words with
          | [] => .error .index
          | ext :: words =>
            readGroups groups gs words fields (if g = gpsBit then some ext else gpsExt)
        else readGroups groups gs words fields gpsExt

/-- `decode_binary_output`. -/
def decodeBinaryOutput (values : List Str) : Except RegisterError BinaryOutputConf := do
  let asyncMode ← number (pyInt (← textAt values 0))
  let divisor ← number (pyInt (← textAt values 1))
  let groups ← number (pyIntHex (← textAt values 2))
  let words ← (values.drop 3).mapM fun v => number (pyIntHex v)
  let (fields, gpsExt) ← readGroups groups (List.range 7) words [] none
  return { asyncMode, divisor, fields, gpsExt }

end Read

/-! ## Masks -/

/-- A field mask, without the bit that announces an extension. -/
def IsMask (mask : ℤ) : Prop := 0 ≤ mask ∧ mask < extFlag

instance (mask : ℤ) : Decidable (IsMask mask) := inferInstanceAs (Decidable (_ ∧ _))

variable {mask : ℤ}

theorem IsMask.exists_nat (h : IsMask mask) : ∃ k : ℕ, mask = k ∧ k < 2 ^ 15 := by
  obtain ⟨k, rfl⟩ := Int.eq_ofNat_of_zero_le h.1
  exact ⟨k, rfl, by exact_mod_cast h.2⟩

/-- The bits of a mask and of one that announces an extension. -/
theorem testBit_extFlag {k : ℕ} (hk : k < 2 ^ 15) (i : ℕ) :
    (k.testBit i && extFlag.testBit i) = false := by
  have hflag : extFlag = 2 ^ 15 := rfl
  rw [hflag, Nat.testBit_two_pow]
  by_cases hi : 15 = i
  · rw [← hi, Nat.testBit_lt_two_pow hk, Bool.false_and]
  · rw [decide_eq_false hi, Bool.and_false]

theorem land_extFlag (h : IsMask mask) : mask.land extFlag = 0 := by
  obtain ⟨k, rfl, hk⟩ := h.exists_nat
  refine congrArg Int.ofNat (Nat.eq_of_testBit_eq fun i => ?_)
  rw [Nat.testBit_and, testBit_extFlag hk, Nat.zero_testBit]

theorem ldiff_extFlag (h : IsMask mask) : mask.ldiff extFlag = mask := by
  obtain ⟨k, rfl, hk⟩ := h.exists_nat
  refine congrArg Int.ofNat (Nat.eq_of_testBit_eq fun i => ?_)
  rw [Nat.testBit_ldiff]
  have := testBit_extFlag hk i
  grind

theorem land_lor_extFlag (h : IsMask mask) : (mask.lor extFlag).land extFlag ≠ 0 := by
  obtain ⟨k, rfl, -⟩ := h.exists_nat
  have hbit : ((k ||| extFlag) &&& extFlag).testBit 15 = true := by
    have hflag : extFlag.testBit 15 = true := by decide
    rw [Nat.testBit_and, Nat.testBit_or, hflag, Bool.or_true, Bool.and_true]
  intro hzero
  have hzero : (k ||| extFlag) &&& extFlag = 0 := Int.ofNat.inj hzero
  rw [hzero, Nat.zero_testBit] at hbit
  cases hbit

theorem ldiff_lor_extFlag (h : IsMask mask) : (mask.lor extFlag).ldiff extFlag = mask := by
  obtain ⟨k, rfl, hk⟩ := h.exists_nat
  refine congrArg Int.ofNat (Nat.eq_of_testBit_eq fun i => ?_)
  rw [Nat.testBit_ldiff, Nat.testBit_or]
  have := testBit_extFlag hk i
  grind

/-! ## The sets of groups -/

theorem testBit_groupSet (bits : List ℕ) (g : ℕ) :
    (groupSet bits).testBit g = true ↔ g ∈ bits := by
  have hfold : ∀ n : ℕ, (bits.foldl (fun groups g => groups ||| 1 <<< g) n).testBit g = true ↔
      n.testBit g = true ∨ g ∈ bits := by
    induction bits with
    | nil => simp
    | cons g' bits ih =>
      intro n
      rw [List.foldl_cons, ih, Nat.testBit_or, Nat.one_shiftLeft, Nat.testBit_two_pow,
        Bool.or_eq_true, decide_eq_true_eq, List.mem_cons, or_assoc, @eq_comm _ g]
  rw [groupSet, hfold]
  simp

theorem land_one_shiftLeft (n g : ℕ) :
    (n : ℤ).land (1 <<< g : ℕ) = 0 ↔ ¬n.testBit g = true := by
  have hland : (n : ℤ).land (1 <<< g : ℕ) = (n &&& 2 ^ g : ℕ) :=
    congrArg (fun m => Int.ofNat (n &&& m)) (Nat.one_shiftLeft g)
  rw [hland, Nat.and_two_pow]
  cases n.testBit g <;> simp

/-! ## Group by group -/

/-- What is still to come of the items of a set of groups when these bits are left : one for each
bit that is in the set, in the order of the bits. -/
structure Upcoming {α : Type*} (key : α → ℕ) (groups : ℕ) (gs : List ℕ) (items : List α) :
    Prop where
  bits : gs.Pairwise (· < ·)
  sorted : (items.map key).Pairwise (· < ·)
  mem : ∀ a ∈ items, key a ∈ gs
  set : ∀ g ∈ gs, groups.testBit g = true ↔ g ∈ items.map key

namespace Upcoming

variable {α : Type*} {key : α → ℕ} {groups g : ℕ} {gs : List ℕ} {items : List α}

theorem eq_nil (h : Upcoming key groups [] items) : items = [] :=
  List.eq_nil_iff_forall_not_mem.2 fun a ha => List.not_mem_nil (h.mem a ha)

/-- The first item is that of the next bit, where that is in the set. -/
theorem next (h : Upcoming key groups (g :: gs) items) (hg : groups.testBit g = true) :
    ∃ a items', items = a :: items' ∧ key a = g ∧ Upcoming key groups gs items' := by
  have hin := (h.set g List.mem_cons_self).1 hg
  have hafter := (List.pairwise_cons.1 h.bits).1
  rcases items with _ | ⟨a, items⟩
  · exact absurd hin List.not_mem_nil
  · have hkey : key a = g := by
      rcases List.mem_cons.1 hin with rfl | hin
      · rfl
      · have hbefore : key a < g := List.rel_of_pairwise_cons h.sorted hin
        rcases List.mem_cons.1 (h.mem a List.mem_cons_self) with heq | hmem
        · exact heq
        · exact absurd hbefore (hafter _ hmem).not_gt
    obtain ⟨hfirst, hsorted⟩ := List.pairwise_cons.1 h.sorted
    refine ⟨a, items, rfl, hkey, h.bits.of_cons, hsorted, fun b hb => ?_, fun g' hg' => ?_⟩
    · have hlt : g < key b := hkey ▸ hfirst _ (List.mem_map_of_mem hb)
      exact (List.mem_cons.1 (h.mem b (List.mem_cons_of_mem _ hb))).resolve_left hlt.ne'
    · rw [h.set g' (List.mem_cons_of_mem _ hg'), List.map_cons, List.mem_cons, hkey]
      exact or_iff_right (hafter g' hg').ne'

/-- A bit that is not in the set has no item. -/
theorem skip (h : Upcoming key groups (g :: gs) items) (hg : ¬groups.testBit g = true) :
    Upcoming key groups gs items where
  bits := h.bits.of_cons
  sorted := h.sorted
  mem a ha := by
    refine (List.mem_cons.1 (h.mem a ha)).resolve_left ?_
    rintro rfl
    exact hg ((h.set _ List.mem_cons_self).2 (List.mem_map_of_mem ha))
  set g' hg' := h.set g' (List.mem_cons_of_mem _ hg')

/-- All the items of a set, in the order of their bits. -/
theorem start (hsorted : (items.map key).Pairwise (· < ·)) (hmem : ∀ a ∈ items, key a < 7) :
    Upcoming key (groupSet (items.map key)) (List.range 7) items where
  bits := List.pairwise_lt_range
  sorted := hsorted
  mem a ha := List.mem_range.2 (hmem a ha)
  set g _ := testBit_groupSet _ g

end Upcoming

section Groups

variable {gpsExt : Option ℤ} {groups g : ℕ}

/-- The words of a group are read back. -/
theorem readGroups_words (hg : groups.testBit g = true) (hmask : IsMask mask)
    (hext : gpsExt ≠ some 0) (gs : List ℕ) (words : List ℤ) (fields : Dict Str ℤ)
    (found : Option ℤ) :
    readGroups groups (g :: gs) (groupWords gpsExt g mask ++ words) fields found =
      readGroups groups gs words (fields.set (groupName g) mask)
        (if g = gpsBit then gpsExt.or found else found) := by
  have hset : ¬(groups : ℤ).land (1 <<< g : ℕ) = 0 := by rwa [land_one_shiftLeft, not_not]
  have hplain : ∀ words, readGroups groups (g :: gs) (mask :: words) fields found =
      readGroups groups gs words (fields.set (groupName g) mask) found := fun words => by
    rw [readGroups, if_neg hset]
    simp [land_extFlag hmask, ldiff_extFlag hmask]
  rcases gpsExt with _ | ext
  · simpa [groupWords, ldiff_extFlag hmask] using hplain words
  · have hext : ext ≠ 0 := fun h => hext (congrArg some h)
    by_cases hgps : g = gpsBit
    · subst hgps
      have hbit : isGps gpsBit = true := rfl
      have hwords : groupWords (some ext) gpsBit mask ++ words =
          mask.lor extFlag :: ext :: words := by
        simp [groupWords, hext, ldiff_extFlag hmask]
      rw [hwords, readGroups, if_neg hset]
      simp [land_lor_extFlag hmask, ldiff_lor_extFlag hmask, hbit]
    · simpa [groupWords, hgps, ldiff_extFlag hmask] using hplain words

theorem readGroups_eq (hext : gpsExt ≠ some 0) : ∀ (gs : List ℕ) (items : List (ℕ × ℤ))
    (fields : Dict Str ℤ) (found : Option ℤ), Upcoming Prod.fst groups gs items →
    (∀ a ∈ items, IsMask a.2) →
      readGroups groups gs (items.flatMap fun a => groupWords gpsExt a.1 a.2) fields found =
        .ok (items.foldl (fun d a => d.set (groupName a.1) a.2) fields,
          items.foldl (fun found a => if a.1 = gpsBit then gpsExt.or found else found) found)
  | [], items, fields, found, h, _ => by
    obtain rfl : items = [] := h.eq_nil
    rfl
  | g :: gs, items, fields, found, h, hmasks => by
    by_cases hg : groups.testBit g = true
    · obtain ⟨⟨g', mask⟩, items, rfl, hkey, hnext⟩ := h.next hg
      obtain rfl : g = g' := hkey.symm
      obtain ⟨hmask, hmasks⟩ := List.forall_mem_cons.1 hmasks
      rw [List.flatMap_cons, readGroups_words hg hmask hext]
      exact readGroups_eq hext gs items _ _ hnext hmasks
    · have hskip : (groups : ℤ).land (1 <<< g : ℕ) = 0 := (land_one_shiftLeft groups g).2 hg
      rw [readGroups.eq_def]
      simp only [if_pos hskip]
      exact readGroups_eq hext gs items fields found (h.skip hg) hmasks

/-- The extension that is found. -/
theorem foldl_gpsExt (items : List (ℕ × ℤ)) (found : Option ℤ) :
    items.foldl (fun found a => if a.1 = gpsBit then gpsExt.or found else found) found =
      if gpsBit ∈ items.map Prod.fst then gpsExt.or found else found := by
  induction items generalizing found with
  | nil => rfl
  | cons a items ih =>
    rw [List.foldl_cons, ih]
    by_cases ha : a.1 = gpsBit
    · rcases gpsExt with _ | ext <;> simp [ha]
    · simp only [if_neg ha, List.map_cons, List.mem_cons, Ne.symm ha, false_or]

end Groups

/-! ## A configuration -/

/-- A configuration of groups that there are, with masks of field bits, and with an extension that
says something, if any, to the GPS group. -/
structure Encodable (conf : BinaryOutputConf) : Prop where
  nodup : conf.fields.keys.Nodup
  names : ∀ a ∈ conf.fields, a.1 ∈ groupBits.keys
  masks : ∀ a ∈ conf.fields, IsMask a.2
  ext : ∀ ext ∈ conf.gpsExt, ext ≠ 0 ∧ "gps".toList ∈ conf.fields.keys

/-- `conf == conf'`. A `dict` is what is found in it. -/
structure SameConf (conf conf' : BinaryOutputConf) : Prop where
  asyncMode : conf.asyncMode = conf'.asyncMode
  divisor : conf.divisor = conf'.divisor
  fields : ∀ name, conf.fields.get name = conf'.fields.get name
  gpsExt : conf.gpsExt = conf'.gpsExt

/-- The bit of a name, where it has one. -/
def groupBit (name : Str) : ℕ := (groupBits.get name).getD 7

theorem groupBits_facts : ∀ name ∈ groupBits.keys, groupBits.get name = some (groupBit name) ∧
    groupName (groupBit name) = name ∧ groupBit name ∈ List.range 7 := by
  decide

variable {conf : BinaryOutputConf}

/-- The bits of the groups, with their masks. -/
def bitItems (fields : Dict Str ℤ) : List (ℕ × ℤ) := fields.map fun a => (groupBit a.1, a.2)

theorem mapM_groupItem {fields : Dict Str ℤ} (h : ∀ a ∈ fields, a.1 ∈ groupBits.keys) :
    fields.mapM groupItem = .ok (bitItems fields) := by
  induction fields with
  | nil => rfl
  | cons a fields ih =>
    obtain ⟨ha, hfields⟩ := List.forall_mem_cons.1 h
    have hitem : groupItem a = .ok (groupBit a.1, a.2) := by
      rw [groupItem, (groupBits_facts a.1 ha).1]
    rw [List.mapM_cons, hitem, ih hfields]
    rfl

theorem Encodable.groupName_bit (h : Encodable conf) {name : Str}
    (hname : name ∈ conf.fields.keys) : groupName (groupBit name) = name := by
  obtain ⟨a, ha, rfl⟩ := List.mem_map.1 hname
  exact (groupBits_facts a.1 (h.names a ha)).2.1

theorem Encodable.nodup_bits (h : Encodable conf) :
    ((bitItems conf.fields).map Prod.fst).Nodup := by
  have hmap : (bitItems conf.fields).map Prod.fst = conf.fields.keys.map groupBit := by
    simp [bitItems, Dict.keys, Function.comp_def]
  rw [hmap]
  refine h.nodup.map_on fun name hname name' hname' heq => ?_
  rw [← h.groupName_bit hname, heq, h.groupName_bit hname']

/-- The groups under their names again. -/
theorem Encodable.map_groupName (h : Encodable conf) :
    (bitItems conf.fields).map (fun a => (groupName a.1, a.2)) = conf.fields := by
  rw [bitItems, List.map_map]
  refine (List.map_congr_left fun a ha => ?_).trans (List.map_id _)
  rw [Function.comp_apply, h.groupName_bit (List.mem_map_of_mem ha)]
  rfl

/-- Dictionaries of the same items. -/
theorem get_of_perm {d d' : Dict Str ℤ} (hperm : d.Perm d') (h : d.keys.Nodup) (k : Str) :
    d.get k = d'.get k := by
  have h' : d'.keys.Nodup := ((hperm.map Prod.fst).nodup_iff).1 h
  refine Option.ext fun v => ?_
  rw [← Dict.mem_iff_get h, ← Dict.mem_iff_get h', hperm.mem_iff]

theorem mapM_pyIntHex [PyDigits] (words : List ℤ) :
    (words.map hexText).mapM (fun v => number (pyIntHex v)) = .ok words := by
  induction words with
  | nil => rfl
  | cons n words ih =>
    rw [List.map_cons, List.mapM_cons, pyIntHex_hexText, ih]
    rfl

/-- The dictionary that is read, of what was written in the order of the bits. -/
theorem Encodable.get_read (h : Encodable conf) {items : List (ℕ × ℤ)}
    (hperm : items.Perm (bitItems conf.fields)) (name : Str) :
    Dict.get (items.foldl (fun (d : Dict Str ℤ) a => d.set (groupName a.1) a.2) []) name =
      conf.fields.get name := by
  have hnamed : (items.map fun a => (groupName a.1, a.2)).Perm conf.fields := by
    simpa only [h.map_groupName] using hperm.map fun a => (groupName a.1, a.2)
  have hnodup : (Dict.keys (items.map fun a => (groupName a.1, a.2))).Nodup :=
    ((hnamed.map Prod.fst).nodup_iff).2 h.nodup
  have hfold : items.foldl (fun (d : Dict Str ℤ) a => d.set (groupName a.1) a.2) [] =
      Dict.updateAll [] (items.map fun a => (groupName a.1, a.2)) := by
    rw [Dict.updateAll, List.foldl_map]
  rw [hfold, Dict.get_updateAll hnodup, get_of_perm hnamed hnodup]
  exact Option.or_none

theorem decodeBinaryOutput_eq [PyDigits] {a d : Str} {asyncMode divisor groups : ℤ}
    {words : List ℤ} {fields : Dict Str ℤ} {gpsExt : Option ℤ} (ha : pyInt a = .ok asyncMode)
    (hd : pyInt d = .ok divisor)
    (hread : readGroups groups (List.range 7) words [] none = .ok (fields, gpsExt)) :
    decodeBinaryOutput ([a, d, hexText groups] ++ words.map hexText) =
      .ok { asyncMode, divisor, fields, gpsExt } := by
  set values := [a, d, hexText groups] ++ words.map hexText with hvalues
  have h0 : textAt values 0 = .ok a := rfl
  have h1 : textAt values 1 = .ok d := rfl
  have h2 : textAt values 2 = .ok (hexText groups) := rfl
  have hdrop : values.drop 3 = words.map hexText := rfl
  have ha : number (pyInt a) = .ok asyncMode := by rw [ha]; rfl
  have hd : number (pyInt d) = .ok divisor := by rw [hd]; rfl
  have hgroups : number (pyIntHex (hexText groups)) = .ok groups := by rw [pyIntHex_hexText]; rfl
  simp only [decodeBinaryOutput, h0, h1, h2, hdrop, bind, Except.bind, ha, hd, hgroups,
    mapM_pyIntHex, hread]
  rfl

/-- What is written is read back. -/
theorem decode_encode [PyDigits] (conf : BinaryOutputConf) (h : Encodable conf)
    (hasync : (Nat.toDigits 10 conf.asyncMode.natAbs).length ≤ intMaxStrDigits)
    (hdivisor : (Nat.toDigits 10 conf.divisor.natAbs).length ≤ intMaxStrDigits) :
    ∃ values conf', encodeBinaryOutput conf = .ok values ∧
      decodeBinaryOutput values = .ok conf' ∧ SameConf conf' conf := by
  obtain ⟨async, hasync⟩ := pyStr_eq_ok.2 hasync
  obtain ⟨divisor, hdivisor⟩ := pyStr_eq_ok.2 hdivisor
  set items := Keyed.sortBy Prod.fst (bitItems conf.fields) with hitems
  have hperm : items.Perm (bitItems conf.fields) := Keyed.sortBy_perm _
  set words := items.flatMap fun a => groupWords conf.gpsExt a.1 a.2 with hwords
  have hencode : encodeBinaryOutput conf =
      .ok ([async, divisor, hexText (groupSet (items.map Prod.fst))] ++ words.map hexText) := by
    rw [encodeBinaryOutput, mapM_groupItem h.names, hasync, hdivisor]
    rfl
  have hin : ∀ a ∈ items, a.1 < 7 ∧ IsMask a.2 := by
    intro a ha
    obtain ⟨b, hb, rfl⟩ := List.mem_map.1 (hperm.mem_iff.1 ha)
    exact ⟨List.mem_range.1 (groupBits_facts b.1 (h.names b hb)).2.2, h.masks b hb⟩
  have hext : conf.gpsExt ≠ some 0 := fun hzero => (h.ext 0 hzero).1 rfl
  have hread := readGroups_eq hext (List.range 7) items [] none
    (Upcoming.start (Keyed.sortBy_strict h.nodup_bits) fun a ha => (hin a ha).1)
    fun a ha => (hin a ha).2
  rw [foldl_gpsExt, ← hwords] at hread
  refine ⟨_, _, hencode,
    decodeBinaryOutput_eq (pyInt_of_pyStr hasync) (pyInt_of_pyStr hdivisor) hread,
    rfl, rfl, h.get_read hperm, ?_⟩
  rcases hgps : conf.gpsExt with _ | ext
  · simp
  · obtain ⟨a, ha, hname⟩ := List.mem_map.1 (h.ext ext hgps).2
    have hbit : gpsBit ∈ items.map Prod.fst := by
      refine (hperm.map Prod.fst).mem_iff.2 (List.mem_map.2 ⟨(groupBit a.1, a.2), ?_, ?_⟩)
      · exact List.mem_map_of_mem ha
      · rw [hname]
        rfl
    simp [hbit]

/-- The GPS group with an extension, in front of a group that comes before it. -/
def gpsFirst : BinaryOutputConf where
  asyncMode := 1
  divisor := 40
  fields := [("gps".toList, 0x7ABA), ("gps2".toList, 0), ("time".toList, 0x02DE)]
  gpsExt := some 1

theorem decode_encode_gpsFirst :
    ∃ values conf', encodeBinaryOutput gpsFirst = .ok values ∧
      @decodeBinaryOutput .ascii values = .ok conf' ∧ SameConf conf' gpsFirst :=
  @decode_encode .ascii gpsFirst ⟨by decide, by decide, by decide, by decide⟩ (by decide)
    (by decide)

/-- A number with one digit more than Python writes. -/
theorem divisor_not_written :
    encodeBinaryOutput { asyncMode := 1, divisor := 10 ^ intMaxStrDigits } = .error .value := by
  have hle := Nat.length_toDigits_le_iff (b := 10) (n := 10 ^ intMaxStrDigits) (by decide)
    (by decide : 0 < intMaxStrDigits)
  have hten : (10 : ℤ).natAbs = 10 := rfl
  have hlong : pyStr (10 ^ intMaxStrDigits) = .error .value := by
    rw [pyStr, if_pos]
    rw [Int.natAbs_pow, hten, ← not_le, hle]
    exact lt_irrefl _
  rw [encodeBinaryOutput, hlong]
  rfl

end Vn

end Mtrtk
