import Mtrtk.RtkConf
import Mtrtk.TextLines

/-!
# What `parse_conf` reads of an option file

A line that says an option is read as its key and its value (`parseConfLine_optionLine`). Read
after others, an option whose value ends no line sets its key and nothing else (`readOption_eq`).
Where the value ends its line the key is left with less than was written, whatever the rest of the
value sets (`readOption_ne`) : no line has as much on it as the value (`inked`).

`Sound` is what the options of a file have, wherever they are from. `readsBack_renderConf_iff`
takes the last override that ends its line, of which nothing behind it sets the key again.
-/

namespace Mtrtk

open EnvFile

namespace RtkConf

/-! ## A line -/

/-- What a key is made of. -/
structure PlainKey (key : Str) : Prop where
  ne : key ≠ []
  plain : ∀ c ∈ key, isKeyChar c = true ∨ c = '-'

theorem isKeyChar_of_isGroupChar {c : Char} (h : isGroupChar c = true) : isKeyChar c = true := by
  simp only [isGroupChar, isKeyChar, isKeyStart, Bool.or_eq_true, Bool.and_eq_true,
    decide_eq_true_eq] at h ⊢
  omega

theorem plainKey_of_isOptionKey {key : Str} (h : isOptionKey key = true) : PlainKey key := by
  unfold isOptionKey at h
  split at h
  · next group name hcut =>
    obtain ⟨-, hgroup, -, hname⟩ := of_decide_eq_true h
    rw [eq_of_cut hcut]
    refine ⟨by simp, fun c hc => ?_⟩
    rcases List.mem_append.1 hc with hc | hc
    · exact .inl (isKeyChar_of_isGroupChar (List.all_eq_true.1 hgroup c hc))
    · rcases List.mem_cons.1 hc with rfl | hc
      · exact .inr rfl
      · exact .inl (List.all_eq_true.1 hname c hc)
  · cases h

theorem plain_char {c : Char} (h : isKeyChar c = true ∨ c = '-') :
    isWhite c = false ∧ isLineBreak c = false ∧ c ≠ '=' ∧ c ≠ '#' := by
  rcases h with h | rfl
  · refine ⟨isWhite_of_isKeyChar h, isLineBreak_of_isKeyChar h, ?_, ?_⟩
    · rintro rfl
      exact absurd h (by decide)
    · rintro rfl
      exact absurd h (by decide)
  · decide

/-- A line that says an option. -/
theorem parseConfLine_optionLine {key value : Str} (hkey : PlainKey key) (hvalue : '#' ∉ value) :
    parseConfLine (optionLine key value) = some (key, strip value) := by
  obtain ⟨c, key, rfl⟩ := List.exists_cons_of_ne_nil hkey.ne
  have hpad : IsBlank (List.replicate (20 - (c :: key).length) ' ') := fun d hd => by
    rw [(List.mem_replicate.1 hd).2]
    rfl
  have hhead : ∀ d ∈ c :: key ++ List.replicate (20 - (c :: key).length) ' ',
      d ≠ '=' ∧ d ≠ '#' := fun d hd => by
    rcases List.mem_append.1 hd with hd | hd
    · exact (plain_char (hkey.plain d hd)).2.2
    · rw [(List.mem_replicate.1 hd).2]
      decide
  have hwhite : isWhite c = false := (plain_char (hkey.plain c List.mem_cons_self)).1
  have hcomment : (optionLine (c :: key) value).takeWhile (· ≠ '#') =
      optionLine (c :: key) value := by
    refine List.takeWhile_eq_self_iff.2 fun d hd => decide_eq_true ?_
    rcases List.mem_append.1 hd with hd | hd
    · exact (hhead d hd).2
    · rcases List.mem_cons.1 hd with rfl | hd
      · decide
      · rintro rfl
        exact hvalue hd
  have hstrip : strip (optionLine (c :: key) value) = optionLine (c :: key) (rstrip value) := by
    rw [strip, optionLine, List.cons_append, List.cons_append,
      List.dropWhile_cons_of_neg (by simp [hwhite])]
    exact @rdropWhile_append_cons isWhite '=' rfl (c :: (key ++ List.replicate _ ' ')) value
  have hkeystrip : strip (c :: key) = c :: key :=
    strip_eq_self fun d hd => (plain_char (hkey.plain d hd)).1
  have hnot : '=' ∉ c :: key ++ List.replicate (20 - (c :: key).length) ' ' := fun h =>
    (hhead '=' h).1 rfl
  rw [parseConfLine, hcomment, hstrip]
  simp only [optionLine, cut_append hnot, Option.map_some, strip_append_blank hpad, hkeystrip,
    strip_rstrip]

theorem confStep_of_isBlank {l : Str} (hl : IsBlank l) (out : Dict Str Str) :
    confStep out l = out := by
  have htake : IsBlank (l.takeWhile (· ≠ '#')) := fun c hc =>
    hl c ((List.takeWhile_prefix _).subset hc)
  rw [confStep, parseConfLine]
  simp only [strip_eq_nil htake]
  rfl

/-! ## An option -/

/-- What a value may hold by the check : it ends no line for RTKLIB, and begins no comment. -/
structure Checked (value : Str) : Prop where
  noCr : '\r' ∉ value
  noComment : '#' ∉ value

/-- The lines of an option, read after others. -/
def readOption (out : Dict Str Str) (option : Str × Str) : Dict Str Str :=
  (splitlines (optionLine option.1 option.2 ++ ['\n'])).foldl confStep out

theorem singleLine_optionLine {key value : Str} (hkey : PlainKey key) (hvalue : SingleLine value) :
    SingleLine (optionLine key value) := by
  intro c hc
  rcases List.mem_append.1 hc with hc | hc
  · rcases List.mem_append.1 hc with hc | hc
    · exact (plain_char (hkey.plain c hc)).2.1
    · rw [(List.mem_replicate.1 hc).2]
      decide
  · rcases List.mem_cons.1 hc with rfl | hc
    · decide
    · exact hvalue c hc

theorem optionLine_append (key value w : Str) :
    optionLine key (value ++ w) = optionLine key value ++ w := by
  simp [optionLine]

/-- A value that ends no line is read as it is, without the blanks around it. -/
theorem readOption_eq {key value : Str} (hkey : PlainKey key) (hchecked : Checked value)
    (hline : SingleLine (rstrip value)) (out : Dict Str Str) :
    readOption out (key, value) = Dict.set out key (strip value) := by
  obtain ⟨w, hvalue, hw⟩ := exists_rstrip_append value
  obtain ⟨w', lines, hsplit, hw', hlines⟩ :=
    splitlines_blank_tail (singleLine_optionLine hkey hline) hw
  have hcomment : '#' ∉ rstrip value ++ w' := fun h => by
    rcases List.mem_append.1 h with h | h
    · exact hchecked.noComment ((List.rdropWhile_prefix _ _).subset h)
    · exact absurd (hw' _ h) (by decide)
  have hblank : ∀ (lines : List Str) (out : Dict Str Str), (∀ l ∈ lines, IsBlank l) →
      lines.foldl confStep out = out := by
    intro lines out hlines
    induction lines with
    | nil => rfl
    | cons l lines ih =>
      obtain ⟨hl, hlines⟩ := List.forall_mem_cons.1 hlines
      rw [List.foldl_cons, confStep_of_isBlank hl, ih hlines]
  rw [readOption]
  conv_lhs => rw [hvalue, optionLine_append, hsplit, ← optionLine_append]
  rw [List.foldl_cons, hblank _ _ hlines, confStep, parseConfLine_optionLine hkey hcomment,
    strip_append_blank hw', strip_rstrip]

/-- The value of a line has less on it than the line. -/
theorem inked_of_parseConfLine {raw key value : Str} (h : parseConfLine raw = some (key, value)) :
    inked value < inked raw := by
  obtain ⟨⟨left, right⟩, hcut, hkv⟩ := Option.map_eq_some_iff.1 h
  obtain ⟨-, rfl⟩ := Prod.mk.inj hkv
  have hline : inked (raw.takeWhile (· ≠ '#')) ≤ inked raw :=
    (List.takeWhile_prefix _).sublist.countP_le
  have hequals : inked ('=' :: right) = 1 + inked right := inked_append ['='] right
  rw [← inked_strip, eq_of_cut hcut, inked_append, hequals] at hline
  have hright : inked (strip right) = inked right := inked_strip right
  show inked (strip right) < inked raw
  omega

/-- What is left at a key after lines of which none has as much on it as `value` and more. -/
theorem get_foldl_confStep {key : Str} {n : ℕ} {lines : List Str} {out : Dict Str Str}
    (hlines : ∀ l ∈ lines, inked l ≤ n) (h : ∃ u, Dict.get out key = some u ∧ inked u < n) :
    ∃ u, Dict.get (lines.foldl confStep out) key = some u ∧ inked u < n := by
  induction lines generalizing out with
  | nil => exact h
  | cons l lines ih =>
    obtain ⟨hl, hlines⟩ := List.forall_mem_cons.1 hlines
    refine ih hlines ?_
    rw [confStep]
    split
    · next k v hparse =>
      rw [Dict.get_set]
      split
      · exact ⟨v, rfl, (inked_of_parseConfLine hparse).trans_le hl⟩
      · exact h
    · exact h

/-- A value with a line break before something that is no blank is not read back. -/
theorem readOption_ne {key value : Str} (hkey : PlainKey key) (hchecked : Checked value)
    (hline : ¬SingleLine (rstrip value)) (out : Dict Str Str) :
    ∃ u, Dict.get (readOption out (key, value)) key = some u ∧ inked u < inked value := by
  obtain ⟨p, c, q, rfl, hp, hc⟩ := exists_first_break fun hvalue =>
    hline fun d hd => hvalue d ((List.rdropWhile_prefix _ _).subset hd)
  have hq : 0 < inked q := by
    refine Nat.pos_of_ne_zero fun hq => hline fun d hd => hp d ?_
    have hblank : IsBlank (c :: q) :=
      List.forall_mem_cons.2 ⟨isWhite_of_isLineBreak hc, inked_eq_zero.1 hq⟩
    rw [rstrip_append_blank hblank] at hd
    exact (List.rdropWhile_prefix _ _).subset hd
  have hcr : c ≠ '\r' := fun h => hchecked.noCr (by simp [h])
  have hcomment : '#' ∉ p := fun h => hchecked.noComment (by simp [h])
  have hinked : inked (p ++ c :: q) = inked p + inked q := by
    rw [inked_append]
    simp [inked, isWhite_of_isLineBreak hc]
  have hlines : splitlines (optionLine key (p ++ c :: q) ++ ['\n']) =
      optionLine key p :: splitlines (q ++ ['\n']) := by
    have hbreak := splitlinesFrom_break (singleLine_optionLine hkey hp) hc [] (q ++ ['\n'])
    rw [decide_eq_false hcr] at hbreak
    rw [optionLine_append, splitlines, List.append_assoc]
    exact hbreak
  rw [readOption, hlines, List.foldl_cons, confStep, parseConfLine_optionLine hkey hcomment]
  refine get_foldl_confStep (fun l hl => ?_) ⟨strip p, ?_, ?_⟩
  · have hle := inked_splitlinesFrom [] false (q ++ ['\n']) l hl
    simp only [inked_append] at hle
    have hn : inked ['\n'] = 0 := rfl
    have hnil : inked [] = 0 := rfl
    omega
  · rw [Dict.get_set, if_pos rfl]
  · rw [inked_strip, hinked]
    omega

/-! ## The file -/

/-- A comment is skipped. -/
theorem foldl_confStep_comment {l : Str} (hhead : l.head? = some '#') (hline : SingleLine l)
    (out : Dict Str Str) : (splitlines (l ++ ['\n'])).foldl confStep out = out := by
  obtain ⟨note, rfl⟩ : ∃ note, l = '#' :: note := ⟨l.tail, List.eq_cons_of_mem_head? hhead⟩
  have hsplit : splitlines ('#' :: note ++ ['\n']) = ['#' :: note] :=
    splitlinesFrom_line hline [] []
  rw [hsplit, List.foldl_cons, List.foldl_nil, confStep, parseConfLine,
    List.takeWhile_cons_of_neg (by simp)]
  rfl

/-- The comments are skipped, and the options read one after the other. -/
theorem parseConf_confLines {notes : List Str} (hnotes : ∀ note ∈ notes, SingleLine note)
    (options : Dict Str Str) :
    parseConf (joinLines (confLines options notes)) = options.foldl readOption [] := by
  have htitle : SingleLine titleLine := by decide +kernel
  have hskip : (notes.map noteLine).foldl
      (fun out l => (splitlines (l ++ ['\n'])).foldl confStep out) [] = [] := by
    rw [List.foldl_map]
    induction notes with
    | nil => rfl
    | cons note notes ih =>
      obtain ⟨hnote, hnotes⟩ := List.forall_mem_cons.1 hnotes
      have hline : SingleLine (noteLine note) :=
        List.forall_mem_cons.2 ⟨rfl, List.forall_mem_cons.2 ⟨rfl, hnote⟩⟩
      rw [List.foldl_cons, foldl_confStep_comment rfl hline]
      exact ih hnotes
  rw [parseConf, joinLines_eq, splitlines_flatMap, List.foldl_flatMap, confLines,
    List.cons_append, List.foldl_cons, foldl_confStep_comment rfl htitle, List.foldl_append,
    hskip, List.foldl_map]
  rfl

/-- What is read of values that end no line. -/
theorem foldl_readOption {options : Dict Str Str}
    (h : ∀ a ∈ options, PlainKey a.1 ∧ Checked a.2 ∧ SingleLine (rstrip a.2))
    (out : Dict Str Str) :
    options.foldl readOption out =
      Dict.updateAll out (options.map fun a => (a.1, strip a.2)) := by
  induction options generalizing out with
  | nil => rfl
  | cons a options ih =>
    obtain ⟨⟨hkey, hchecked, hline⟩, h⟩ := List.forall_mem_cons.1 h
    rw [List.foldl_cons, readOption_eq hkey hchecked hline, ih h]
    rfl

/-! ## The options of a file -/

/-- A text that ends no line, and begins no comment. -/
def Plain (value : Str) : Prop := ∀ c ∈ value, isLineBreak c = false ∧ c ≠ '#'

instance (value : Str) : Decidable (Plain value) :=
  List.decidableBAll (fun c => isLineBreak c = false ∧ c ≠ '#') value

theorem checked_of_plain {value : Str} (h : Plain value) : Checked value where
  noCr hc := by simpa [isLineBreak] using (h _ hc).1
  noComment hc := (h _ hc).2 rfl

theorem singleLine_of_plain {s : Str} (h : Plain s) : SingleLine s := fun c hc => (h c hc).1

theorem singleLine_rstrip_of_plain {value : Str} (h : Plain value) : SingleLine (rstrip value) :=
  (singleLine_of_plain h).mono (List.rdropWhile_prefix _ _).subset

theorem plain_append {s t : Str} (hs : Plain s) (ht : Plain t) : Plain (s ++ t) :=
  fun c hc => (List.mem_append.1 hc).elim (hs c) (ht c)

theorem plain_natRepr (n : ℕ) : Plain n.repr.toList := by
  intro c hc
  rw [Nat.repr, String.toList_ofList] at hc
  have hdigit : c.isDigit = true := Nat.isDigit_of_mem_toDigits (by decide) (by decide) hc
  simp only [Char.isDigit, Bool.and_eq_true, decide_eq_true_eq, ge_iff_le,
    UInt32.le_iff_toNat_le] at hdigit
  obtain ⟨hlow, hhigh⟩ := hdigit
  change 48 ≤ c.toNat at hlow
  change c.toNat ≤ 57 at hhigh
  refine ⟨?_, ?_⟩
  · simp only [isLineBreak, Bool.or_eq_false_iff, Bool.and_eq_false_iff, decide_eq_false_iff_not]
    omega
  · rintro rfl
    exact absurd hlow (by decide)

theorem plain_fixedText (digits : ℕ) (value : ℚ) : Plain (fixedText digits value).toList := by
  have hdot : Plain ".".toList := by decide
  have hminus : Plain "-".toList := by decide
  have hzeros : ∀ n, Plain (String.ofList (List.replicate n '0')).toList := by
    intro n c hc
    rw [String.toList_ofList] at hc
    rw [(List.mem_replicate.1 hc).2]
    decide
  have hsign : Plain (if value < 0 then "-" else "").toList := by
    split
    · exact hminus
    · exact fun c hc => absurd hc List.not_mem_nil
  rw [fixedText]
  split
  · rw [String.toList_append]
    exact plain_append hsign (plain_natRepr _)
  · simp only [String.toList_append]
    exact plain_append (plain_append (plain_append (plain_append hsign (plain_natRepr _)) hdot)
      (hzeros _)) (plain_natRepr _)

/-- The keys of the base position. -/
def positionKeys : List Str := ["ant2-pos1".toList, "ant2-pos2".toList, "ant2-pos3".toList]

/-- The keys of a file. -/
def Known (overrides : Dict Str Str) (build : Build) (key : Str) : Prop :=
  key ∈ Dict.keys baseOptions ∨ key ∈ positionKeys ∨
    (build = .demo5 ∧ key ∈ Dict.keys demo5Options) ∨ key ∈ Dict.keys overrides

/-- What every option of a file is. -/
structure Sound (overrides : Dict Str Str) (build : Build) (a : Str × Str) : Prop where
  plain : PlainKey a.1
  known : Known overrides build a.1
  checked : Checked a.2
  line : SingleLine (rstrip a.2) ∨ a ∈ overrides

theorem sound_of_plain {overrides : Dict Str Str} {build : Build} {key value : Str}
    (hkey : isOptionKey key = true) (hknown : Known overrides build key) (hplain : Plain value) :
    Sound overrides build (key, value) where
  plain := plainKey_of_isOptionKey hkey
  known := hknown
  checked := checked_of_plain hplain
  line := .inl (singleLine_rstrip_of_plain hplain)

theorem baseOptions_plain : ∀ a ∈ baseOptions, isOptionKey a.1 = true ∧ Plain a.2 := by
  decide +kernel

theorem demo5Options_plain : ∀ a ∈ demo5Options, isOptionKey a.1 = true ∧ Plain a.2 := by
  decide +kernel

theorem frequencyEnum_plain : ∀ a ∈ frequencyEnum, Plain a.1 ∧ Plain a.2 := by
  decide +kernel

theorem stockFallback_plain :
    ∀ f ∈ stockFallback, isOptionKey f.1 = true ∧ f.1 ∈ Dict.keys baseOptions ∧
      (∀ value ∈ f.2.1, Plain value) ∧ Plain f.2.2 := by
  decide +kernel

/-- What the overrides have by the check. -/
theorem of_checkOverrides {overrides : Dict Str Str} (h : checkOverrides overrides = .ok ()) :
    ∀ a ∈ overrides, isOptionKey a.1 = true ∧ Checked a.2 := by
  induction overrides with
  | nil => exact fun a ha => absurd ha List.not_mem_nil
  | cons a overrides ih =>
    obtain ⟨key, value⟩ := a
    rw [checkOverrides] at h
    split at h
    · cases h
    · next hkey =>
      split at h
      · cases h
      · next hvalue =>
        simp only [not_or, List.any_eq_true, not_exists, not_and, decide_eq_true_eq] at hvalue
        refine List.forall_mem_cons.2 ⟨⟨by simpa using hkey, ?_, ?_⟩, ih h⟩
        · exact fun hc => hvalue.2 _ hc (by decide)
        · exact fun hc => hvalue.2 _ hc (by decide)

section Options

variable {x y z : ℚ} {overrides : Dict Str Str} {glonassAr : Str} {includeQzss : Bool}
  {build : Build} {binary : Str}

theorem sound_givenOptions (har : Plain glonassAr) :
    ∀ a ∈ givenOptions x y z glonassAr includeQzss build, Sound overrides build a := by
  have hbase : ∀ a ∈ baseOptions, Sound overrides build a := fun a ha =>
    sound_of_plain (baseOptions_plain a ha).1 (.inl (List.mem_map_of_mem ha))
      (baseOptions_plain a ha).2
  have hposition : ∀ key ∈ positionKeys, ∀ v,
      Sound overrides build (key, (fixedText 4 v).toList) := by
    intro key hkey v
    have hname : ∀ key ∈ positionKeys, isOptionKey key = true := by decide
    exact sound_of_plain (hname key hkey) (.inr (.inl hkey)) (plain_fixedText 4 v)
  have hgloar : Sound overrides build (gloarmodeKey, glonassAr) :=
    sound_of_plain (by decide) (.inl (by decide)) har
  have hnavsys : Sound overrides build (navsysKey, (toString (45 ||| navsysQzssBit)).toList) :=
    sound_of_plain (by decide) (.inl (by decide)) (plain_natRepr _)
  unfold givenOptions
  refine Dict.forall_set (hposition _ (by decide) z) ?_
  refine Dict.forall_set (hposition _ (by decide) y) ?_
  refine Dict.forall_set (hposition _ (by decide) x) ?_
  have hqzss : ∀ a ∈ if includeQzss then Dict.set (Dict.set baseOptions gloarmodeKey glonassAr)
      navsysKey (toString (45 ||| navsysQzssBit)).toList
      else Dict.set baseOptions gloarmodeKey glonassAr, Sound overrides build a := by
    split
    · exact Dict.forall_set hnavsys (Dict.forall_set hgloar hbase)
    · exact Dict.forall_set hgloar hbase
  split
  · next hbuild =>
    refine Dict.forall_updateAll (fun a ha => ?_) hqzss
    exact sound_of_plain (demo5Options_plain a ha).1
      (.inr (.inr (.inl ⟨hbuild, List.mem_map_of_mem ha⟩))) (demo5Options_plain a ha).2
  · exact hqzss

theorem nodup_givenOptions :
    (Dict.keys (givenOptions x y z glonassAr includeQzss build)).Nodup := by
  have hbase : (Dict.keys baseOptions).Nodup := by decide +kernel
  unfold givenOptions
  refine Dict.nodup_set (Dict.nodup_set (Dict.nodup_set ?_))
  split
  · refine Dict.nodup_updateAll ?_
    split
    · exact Dict.nodup_set (Dict.nodup_set hbase)
    · exact Dict.nodup_set hbase
  · split
    · exact Dict.nodup_set (Dict.nodup_set hbase)
    · exact Dict.nodup_set hbase

theorem plain_frequencyEnum {freq text : Str} (h : Dict.get frequencyEnum freq = some text) :
    Plain freq ∧ Plain text :=
  frequencyEnum_plain (freq, text) ((Dict.mem_iff_get (by decide)).2 h)

theorem sound_frequency {freq : Str} (h : Sound overrides build (frequencyKey, freq)) :
    Sound overrides build (frequencyKey, frequencyText freq) := by
  rw [frequencyText]
  rcases hget : Dict.get frequencyEnum freq with _ | text
  · exact h
  · exact sound_of_plain (by decide) h.known (plain_frequencyEnum hget).2

theorem nodup_confOptions :
    (Dict.keys (confOptions x y z overrides glonassAr includeQzss build)).Nodup := by
  simp only [confOptions]
  split
  · exact Dict.nodup_set (Dict.nodup_updateAll nodup_givenOptions)
  · exact Dict.nodup_updateAll nodup_givenOptions

theorem sound_confOptions (har : Plain glonassAr)
    (hoverrides : ∀ a ∈ overrides, isOptionKey a.1 = true ∧ Checked a.2) :
    ∀ a ∈ confOptions x y z overrides glonassAr includeQzss build, Sound overrides build a := by
  have hall : ∀ a ∈ Dict.updateAll (givenOptions x y z glonassAr includeQzss build) overrides,
      Sound overrides build a := by
    refine Dict.forall_updateAll (fun a ha => ?_) (sound_givenOptions har)
    exact ⟨plainKey_of_isOptionKey (hoverrides a ha).1,
      .inr (.inr (.inr (List.mem_map_of_mem ha))), (hoverrides a ha).2, .inr ha⟩
  simp only [confOptions]
  split
  · next freq hfreq =>
    have hmem := (Dict.mem_iff_get (Dict.nodup_updateAll nodup_givenOptions)).2 hfreq
    exact Dict.forall_set (sound_frequency (hall _ hmem)) hall
  · exact hall

/-- What is written for an override. -/
def overrideText (a : Str × Str) : Str := if a.1 = frequencyKey then frequencyText a.2 else a.2

theorem get_confOptions (hnodup : (Dict.keys overrides).Nodup) {a : Str × Str}
    (ha : a ∈ overrides) :
    Dict.get (confOptions x y z overrides glonassAr includeQzss build) a.1 =
      some (overrideText a) := by
  have hget : Dict.get (Dict.updateAll (givenOptions x y z glonassAr includeQzss build) overrides)
      a.1 = some a.2 := by
    rw [Dict.get_updateAll hnodup, (Dict.mem_iff_get hnodup).1 ha]
    rfl
  rw [confOptions, overrideText]
  split
  · next freq hfreq =>
    rw [Dict.get_set]
    by_cases hkey : a.1 = frequencyKey
    · rw [hkey, hfreq] at hget
      rw [if_pos hkey.symm, if_pos hkey, Option.some.inj hget]
    · rw [if_neg (Ne.symm hkey), if_neg hkey, hget]
  · next hfreq =>
    have hkey : a.1 ≠ frequencyKey := fun hkey => by
      rw [hkey, hfreq] at hget
      cases hget
    rw [if_neg hkey, hget]

/-! ## The options for a build -/

/-- What is kept of the options and the notes while they are fitted to the build. -/
structure Fits (overrides : Dict Str Str) (build : Build) (s : Dict Str Str × List Str) :
    Prop where
  sound : ∀ a ∈ s.1, Sound overrides build a
  nodup : (Dict.keys s.1).Nodup
  notes : ∀ note ∈ s.2, SingleLine note

/-- What `_to_stock` notes is of one line. -/
theorem singleLine_note {f : Str × List Str × Str} (hf : f ∈ stockFallback) {value : Str}
    (hvalue : value ∈ f.2.1) :
    SingleLine
      (f.1 ++ '=' :: value ++ " needs RTKLIB demo5; this build gets ".toList ++ f.2.2) := by
  obtain ⟨hkey, -, hvalues, hfallback⟩ := stockFallback_plain f hf
  have hname : SingleLine f.1 := fun c hc =>
    (plain_char ((plainKey_of_isOptionKey hkey).plain c hc)).2.1
  have htext : Plain " needs RTKLIB demo5; this build gets ".toList := by decide
  have hset : SingleLine ('=' :: value) :=
    List.forall_mem_cons.2 ⟨rfl, singleLine_of_plain (hvalues value hvalue)⟩
  refine ((hname.append hset).append ?_).append ?_
  · exact singleLine_of_plain htext
  · exact singleLine_of_plain hfallback

theorem Fits.stockStep {s : Dict Str Str × List Str} (h : Fits overrides build s)
    {f : Str × List Str × Str} (hf : f ∈ stockFallback) :
    Fits overrides build (stockStep s f) := by
  obtain ⟨hkey, hbase, -, hplain⟩ := stockFallback_plain f hf
  rw [RtkConf.stockStep]
  split
  · next value _ =>
    split
    · next hcontains =>
      have hvalue := List.contains_iff_mem.1 hcontains
      refine ⟨Dict.forall_set (sound_of_plain hkey (.inl hbase) hplain) h.sound,
        Dict.nodup_set h.nodup, ?_⟩
      intro note hnote
      rcases List.mem_append.1 hnote with hnote | hnote
      · exact h.notes note hnote
      · rw [List.mem_singleton.1 hnote]
        exact singleLine_note hf hvalue
    · exact h
  · exact h

theorem Fits.foldl {l : List (Str × List Str × Str)} (hl : ∀ f ∈ l, f ∈ stockFallback)
    {s : Dict Str Str × List Str} (h : Fits overrides build s) :
    Fits overrides build (l.foldl RtkConf.stockStep s) := by
  induction l generalizing s with
  | nil => exact h
  | cons f l ih =>
    obtain ⟨hf, hl⟩ := List.forall_mem_cons.1 hl
    exact ih hl (h.stockStep hf)

theorem fits_fitted (hbinary : SingleLine binary) {options : Dict Str Str}
    (hsound : ∀ a ∈ options, Sound overrides build a) (hnodup : (Dict.keys options).Nodup) :
    Fits overrides build (fitted options build binary) := by
  have hnone : Fits overrides build (options, []) := ⟨hsound, hnodup, by simp⟩
  have hunknown : Plain (" was not recognised as RTKLIB demo5 or stock 2.4.3; ".toList ++
      "the demo5 tunables were left out".toList) := by decide
  cases build with
  | demo5 => exact hnone
  | stock => exact hnone.foldl fun f hf => hf
  | unknown =>
    refine ⟨hsound, hnodup, fun note hnote => ?_⟩
    rw [List.mem_singleton.1 hnote]
    exact hbinary.append (singleLine_of_plain hunknown)

/-- The value of an option that a stock build does not know. -/
def Downgraded (build : Build) (a : Str × Str) : Prop :=
  build = .stock ∧ ∃ f ∈ stockFallback, f.1 = a.1 ∧ a.2 ∈ f.2.1

theorem get_stockStep {s : Dict Str Str × List Str} {f : Str × List Str × Str} {key value : Str}
    (hnot : ¬(f.1 = key ∧ value ∈ f.2.1)) (h : Dict.get s.1 key = some value) :
    Dict.get (stockStep s f).1 key = some value := by
  rw [stockStep]
  split
  · next value' hget =>
    split
    · next hcontains =>
      have hmem := List.contains_iff_mem.1 hcontains
      have hkey : f.1 ≠ key := fun hkey => by
        rw [hkey, h] at hget
        exact hnot ⟨hkey, Option.some.inj hget ▸ hmem⟩
      rw [Dict.get_set, if_neg hkey, h]
    · exact h
  · exact h

/-- An option that is not downgraded is left as it is. -/
theorem get_fitted {options : Dict Str Str} {key value : Str}
    (hnot : ¬Downgraded build (key, value)) (h : Dict.get options key = some value) :
    Dict.get (fitted options build binary).1 key = some value := by
  have hfold : ∀ (l : List (Str × List Str × Str)) (s : Dict Str Str × List Str),
      (∀ f ∈ l, ¬(f.1 = key ∧ value ∈ f.2.1)) → Dict.get s.1 key = some value →
      Dict.get (l.foldl stockStep s).1 key = some value := by
    intro l
    induction l with
    | nil => exact fun s _ hget => hget
    | cons f l ih =>
      intro s hl hget
      obtain ⟨hf, hl⟩ := List.forall_mem_cons.1 hl
      exact ih _ hl (get_stockStep hf hget)
  cases build with
  | demo5 => exact h
  | unknown => exact h
  | stock => exact hfold stockFallback (options, []) (fun f hf hkey => hnot ⟨rfl, f, hf, hkey⟩) h

/-! ## The round trip -/

/-- What is read back of the overrides, and the keys there are. -/
structure ReadsBack (overrides : Dict Str Str) (build : Build) (parsed : Dict Str Str) :
    Prop where
  maps : ∀ a ∈ overrides, ¬Downgraded build a →
    Dict.get parsed a.1 = some (strip (overrideText a))
  keys : ∀ key ∈ Dict.keys parsed, Known overrides build key

/-- The last of a list with a property. -/
theorem exists_last {α : Type*} {p : α → Prop} {l : List α} (h : ∃ a ∈ l, p a) :
    ∃ l₁ a l₂, l = l₁ ++ a :: l₂ ∧ p a ∧ ∀ b ∈ l₂, ¬p b := by
  induction l with
  | nil => exact absurd h (by simp)
  | cons b l ih =>
    by_cases hl : ∃ a ∈ l, p a
    · obtain ⟨l₁, a, l₂, rfl, hrest⟩ := ih hl
      exact ⟨b :: l₁, a, l₂, rfl, hrest⟩
    · obtain ⟨a, ha, hp⟩ := h
      rcases List.mem_cons.1 ha with rfl | ha
      · exact ⟨[], a, l, rfl, hp, fun b hb hpb => hl ⟨b, hb, hpb⟩⟩
      · exact absurd ⟨a, ha, hp⟩ hl

theorem keys_map_strip (options : Dict Str Str) :
    Dict.keys (options.map fun a => (a.1, strip a.2)) = Dict.keys options := by
  simp [Dict.keys]

theorem get_map_strip (options : Dict Str Str) (key : Str) :
    Dict.get (options.map fun a => (a.1, strip a.2)) key = (Dict.get options key).map strip := by
  induction options with
  | nil => rfl
  | cons a options ih =>
    rw [List.map_cons, Dict.get_cons, Dict.get_cons, ih]
    split
    · rfl
    · rfl

/-- The options that are written, each read back without the blanks around it. -/
theorem readsBack_of_singleLine {options : Dict Str Str}
    (hsound : ∀ a ∈ options, Sound overrides build a)
    (hnodup : (Dict.keys options).Nodup) (hline : ∀ a ∈ overrides, SingleLine (rstrip a.2))
    (hget : ∀ a ∈ overrides, ¬Downgraded build a →
      Dict.get options a.1 = some (overrideText a)) :
    ReadsBack overrides build (options.foldl readOption []) := by
  have hall : ∀ a ∈ options, PlainKey a.1 ∧ Checked a.2 ∧ SingleLine (rstrip a.2) := fun a ha =>
    ⟨(hsound a ha).plain, (hsound a ha).checked, (hsound a ha).line.elim id (hline a)⟩
  rw [foldl_readOption hall]
  refine ⟨fun a ha hnot => ?_, fun key hkey => ?_⟩
  · rw [Dict.get_updateAll (by rwa [keys_map_strip]), get_map_strip, hget a ha hnot]
    rfl
  · rcases Dict.mem_keys_updateAll.1 hkey with hkey | hkey
    · exact absurd hkey List.not_mem_nil
    · rw [keys_map_strip] at hkey
      obtain ⟨a, ha, rfl⟩ := List.mem_map.1 hkey
      exact (hsound a ha).known

/-- The last override whose value ends its line is not read back. -/
theorem singleLine_of_readsBack {options : Dict Str Str}
    (hsound : ∀ a ∈ options, Sound overrides build a) (hnodup : (Dict.keys options).Nodup)
    (hget : ∀ a ∈ overrides, ¬Downgraded build a →
      Dict.get options a.1 = some (overrideText a))
    (hreads : ReadsBack overrides build (options.foldl readOption [])) :
    ∀ a ∈ overrides, SingleLine (rstrip a.2) := by
  have hplain : ∀ a : Str × Str, ¬SingleLine (rstrip a.2) → ¬Plain a.2 := fun a hbad hplain =>
    hbad (singleLine_rstrip_of_plain hplain)
  have htext : ∀ a : Str × Str, ¬SingleLine (rstrip a.2) → overrideText a = a.2 := by
    intro a hbad
    rw [overrideText, frequencyText]
    split
    · rcases henum : Dict.get frequencyEnum a.2 with _ | text
      · rfl
      · exact absurd (plain_frequencyEnum henum).1 (hplain a hbad)
    · rfl
  have hkept : ∀ a : Str × Str, ¬SingleLine (rstrip a.2) → ¬Downgraded build a := by
    rintro a hbad ⟨-, f, hf, -, hvalue⟩
    exact hplain a hbad ((stockFallback_plain f hf).2.2.1 _ hvalue)
  by_contra hcon
  obtain ⟨b, hb, hbad⟩ : ∃ b ∈ overrides, ¬SingleLine (rstrip b.2) := by simpa using hcon
  have hmem : b ∈ options := (Dict.mem_iff_get hnodup).2 ((hget b hb (hkept b hbad)).trans
    (congrArg some (htext b hbad)))
  obtain ⟨l₁, a, l₂, rfl, hbad, hlast⟩ :=
    @exists_last _ (fun a : Str × Str => ¬SingleLine (rstrip a.2)) _ ⟨b, hmem, hbad⟩
  obtain ⟨hplainKey, -, hchecked, hline⟩ := hsound a (by simp)
  have ha : a ∈ overrides := hline.resolve_left hbad
  obtain ⟨u, hu, hlt⟩ := readOption_ne hplainKey hchecked hbad (l₁.foldl readOption [])
  have hgood : ∀ b ∈ l₂, PlainKey b.1 ∧ Checked b.2 ∧ SingleLine (rstrip b.2) := fun b hb =>
    have hs := hsound b (by simp [hb])
    ⟨hs.plain, hs.checked, not_not.1 (hlast b hb)⟩
  have hkeys : (Dict.keys l₂).Nodup ∧ a.1 ∉ Dict.keys l₂ := by
    simp only [Dict.keys, List.map_append, List.map_cons, List.nodup_append,
      List.nodup_cons] at hnodup ⊢
    exact ⟨hnodup.2.1.2, hnodup.2.1.1⟩
  have hread := hreads.maps a ha (hkept a hbad)
  rw [List.foldl_append, List.foldl_cons, foldl_readOption hgood,
    Dict.get_updateAll (by rw [keys_map_strip]; exact hkeys.1), get_map_strip,
    Dict.get_eq_none hkeys.2, htext a hbad] at hread
  have heq : u = strip a.2 := Option.some.inj (hu.symm.trans hread)
  rw [heq, inked_strip] at hlt
  exact absurd hlt (lt_irrefl _)

/-- What is written, once the checks pass. -/
theorem of_renderConf {names : List Str} {text : Str} {notes : List Str}
    (h : renderConf x y z overrides glonassAr includeQzss binary names = .ok (text, notes)) :
    checkOverrides overrides = .ok () ∧
      text = joinLines
        (confLines
          (fitted (confOptions x y z overrides glonassAr includeQzss (detectBuild names))
            (detectBuild names) binary).1
          (fitted (confOptions x y z overrides glonassAr includeQzss (detectBuild names))
            (detectBuild names) binary).2) := by
  rw [renderConf] at h
  rcases hbase : checkBase x y z with e | ⟨⟩
  · rw [hbase] at h
    cases h
  · rcases hcheck : checkOverrides overrides with e | ⟨⟩
    · rw [hbase, hcheck] at h
      cases h
    · rw [hbase, hcheck] at h
      exact ⟨rfl, (Prod.mk.inj (Except.ok.inj h)).1.symm⟩

end Options

/-- The overrides of a file that is written are read back, and nothing but what it has, just
where no value ends its line before the blanks at its end. `str.splitlines` ends lines at more
than the check refuses. -/
theorem readsBack_renderConf_iff {x y z : ℚ} {overrides : Dict Str Str} {glonassAr : Str}
    {includeQzss : Bool} {binary : Str} {names : List Str} {text : Str} {notes : List Str}
    (hkeys : (Dict.keys overrides).Nodup) (har : Plain glonassAr) (hbinary : SingleLine binary)
    (h : renderConf x y z overrides glonassAr includeQzss binary names = .ok (text, notes)) :
    ReadsBack overrides (detectBuild names) (parseConf text) ↔
      ∀ a ∈ overrides, SingleLine (rstrip a.2) := by
  obtain ⟨hcheck, rfl⟩ := of_renderConf h
  have hoverrides := of_checkOverrides hcheck
  have hfits := fits_fitted hbinary
    (@sound_confOptions x y z _ _ includeQzss (detectBuild names) har hoverrides)
    nodup_confOptions
  have hget : ∀ a ∈ overrides, ¬Downgraded (detectBuild names) a →
      Dict.get (fitted (confOptions x y z overrides glonassAr includeQzss (detectBuild names))
        (detectBuild names) binary).1 a.1 = some (overrideText a) := by
    intro a ha hnot
    refine get_fitted ?_ (get_confOptions hkeys ha)
    rintro ⟨hbuild, f, hf, hkey, hvalue⟩
    refine hnot ⟨hbuild, f, hf, hkey, ?_⟩
    have hne : a.1 ≠ frequencyKey := by
      have hall : ∀ f ∈ stockFallback, f.1 ≠ frequencyKey := by decide
      exact fun heq => hall f hf (hkey.trans heq)
    simpa [overrideText, hne] using hvalue
  rw [parseConf_confLines hfits.notes]
  constructor
  · exact singleLine_of_readsBack hfits.sound hfits.nodup hget
  · exact fun hline => readsBack_of_singleLine hfits.sound hfits.nodup hline hget

/-- A mask of 10 degrees, and the frequencies by their name. -/
def twoOverrides : Dict Str Str := items [("pos1-elmask", " 10 "), ("pos1-frequency", "l1")]

theorem readsBack_twoOverrides :
    ∃ text notes, renderConf 6378137 0 0 twoOverrides "on".toList false "rnx2rtkp".toList
        [demo5Probe] = .ok (text, notes) ∧
      ReadsBack twoOverrides .demo5 (parseConf text) := by
  have hok : (renderConf 6378137 0 0 twoOverrides "on".toList false "rnx2rtkp".toList
      [demo5Probe]).toOption.isSome = true := by decide +kernel
  rcases h : renderConf 6378137 0 0 twoOverrides "on".toList false "rnx2rtkp".toList
      [demo5Probe] with e | ⟨text, notes⟩
  · rw [h] at hok
    cases hok
  · refine ⟨text, notes, rfl, (readsBack_renderConf_iff ?_ ?_ ?_ h).2 ?_⟩
    · decide
    · decide
    · decide
    · decide

/-- A value with an option behind a vertical tab. -/
def tabOverride : Dict Str Str :=
  items [("misc-timeinterp", "off\x0bpos1-exclsats=G01")]

/-- The option behind it is read. -/
theorem not_readsBack_tabOverride :
    ∃ text notes, renderConf 6378137 0 0 tabOverride "on".toList false "rnx2rtkp".toList
        [coreProbe] = .ok (text, notes) ∧
      Dict.get (parseConf text) "pos1-exclsats".toList = some "G01".toList ∧
      ¬ReadsBack tabOverride .stock (parseConf text) := by
  have hparsed : (renderConf 6378137 0 0 tabOverride "on".toList false "rnx2rtkp".toList
      [coreProbe]).toOption.map (fun r => Dict.get (parseConf r.1) "pos1-exclsats".toList) =
      some (some "G01".toList) := by decide +kernel
  have hforeign : ¬Known tabOverride .stock "pos1-exclsats".toList := by
    unfold Known
    decide +kernel
  rcases h : renderConf 6378137 0 0 tabOverride "on".toList false "rnx2rtkp".toList
      [coreProbe] with e | ⟨text, notes⟩
  · rw [h] at hparsed
    cases hparsed
  · rw [h] at hparsed
    have hget : Dict.get (parseConf text) "pos1-exclsats".toList = some "G01".toList :=
      Option.some.inj hparsed
    refine ⟨text, notes, rfl, hget, fun hreads => hforeign (hreads.keys _ ?_)⟩
    by_contra hkey
    rw [Dict.get_eq_none hkey] at hget
    cases hget

end RtkConf

end Mtrtk
