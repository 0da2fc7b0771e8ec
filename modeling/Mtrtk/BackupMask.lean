import Mtrtk.EnvRoundTrip
import Mtrtk.TextLines
import Mtrtk.UrlMask

/-!
# What a masked `.env` binds

`written_spec` : what `masked_env` writes for a line binds what the line binds, with secrets masked,
and where it is a URL perhaps more, on the lines its masked form has behind the first (`Spills`). A
value in quotes may have a line break that `encode_value` writes as it is. A value that is no URL
with credentials is `Kept` unless it is taken for one (`Mistaken`), as in `contact_masked`.

What is missing is bound on the lines that are dropped as the rest of a secret (`droppedLines`).
`_closes` takes a quote behind a backslash for an escaped one, also where the backslash is the
second of two, and a comment may leave a quote open that no assignment does. With what is missing
and what spills the bindings are counted (`exists_length_eq`), and without either they are kept
just when none is mistaken (`keepsBindings_maskedEnv`), whether a value in quotes is closed on its
line or not.
-/

namespace Mtrtk

open EnvFile

namespace Backup

/-! ## Bindings -/

/-- What the lines bind, in order. -/
def bindings (lines : List Str) : List (Str × Str) := lines.filterMap parseAssignment

theorem bindings_append (a b : List Str) : bindings (a ++ b) = bindings a ++ bindings b :=
  List.filterMap_append

theorem bindings_cons (line : Str) (lines : List Str) :
    bindings (line :: lines) = (parseAssignment line).toList ++ bindings lines := by
  rw [bindings, List.filterMap_cons]
  split
  · next hnone =>
    rw [hnone]
    rfl
  · next b hb =>
    rw [hb]
    rfl

theorem parseAssignment_isKey {line : Str} {b : Str × Str} (h : parseAssignment line = some b) :
    IsKey b.1 := by
  obtain ⟨e, he, rfl⟩ := Option.map_eq_some_iff.1 h
  exact isKey_of_parseLine he

theorem parseAssignment_key {key : Str} (h : IsKey key) (rest : Str) :
    parseAssignment (key ++ '=' :: rest) = some (key, (parseValue rest).1) := by
  rw [Backup.parseAssignment, h.parseLine rest]
  rfl

/-- A comment. -/
def CommentLine (line : Str) : Prop :=
  ∃ gap rest, line = gap ++ '#' :: rest ∧ ∀ c ∈ gap, isGap c = true

theorem CommentLine.parseAssignment {line : Str} (h : CommentLine line) :
    parseAssignment line = none := by
  obtain ⟨gap, rest, rfl, hgap⟩ := h
  have hstart : (gap ++ '#' :: rest).dropWhile isGap = '#' :: rest := by
    rw [List.dropWhile_append_of_pos hgap, List.dropWhile_cons_of_neg (by decide)]
  have hassign : matchAssign (gap ++ '#' :: rest) = none := by
    simp only [matchAssign, hstart]
    rfl
  rw [Backup.parseAssignment, parseLine, hassign]
  rfl

theorem commentLine_of_isComment {line : Str} (hl : SingleLine line)
    (h : isComment line = true) : CommentLine line := by
  have hhead : (line.dropWhile isWhite).head? = some '#' := of_decide_eq_true h
  refine ⟨line.takeWhile isWhite, (line.dropWhile isWhite).tail, ?_, fun c hc => ?_⟩
  · rw [← List.eq_cons_of_mem_head? hhead, List.takeWhile_append_dropWhile]
  · have hwhite : isWhite c = true := List.mem_takeWhile_imp hc
    have hbreak : isLineBreak c = false := hl c ((List.takeWhile_prefix _).subset hc)
    simp only [isGap, hwhite, Bool.true_and, Bool.and_eq_true, decide_eq_true_eq]
    refine ⟨?_, ?_⟩
    · rintro rfl
      exact absurd hbreak (by decide)
    · rintro rfl
      exact absurd hbreak (by decide)

/-- A line that is read with something before the assignment is a comment, however it goes on. -/
theorem commented_some {line lead body : Str} (h : commented line = some (lead, body)) :
    line = lead ++ body ∧ ∀ rest, CommentLine (lead ++ rest) := by
  unfold commented at h
  split at h
  · next after hsplit =>
    obtain ⟨rfl, rfl⟩ := Prod.mk.inj (Option.some.inj h)
    refine ⟨?_, fun rest => ⟨line.takeWhile isGap, after.takeWhile isGap ++ rest, by simp,
      fun c hc => List.mem_takeWhile_imp hc⟩⟩
    rw [List.append_assoc, List.cons_append, List.takeWhile_append_dropWhile, ← hsplit,
      List.takeWhile_append_dropWhile]
  · cases h

theorem bindings_singleLine {line : Str} (hl : SingleLine line) :
    bindings (splitlines (line ++ ['\n'])) = (parseAssignment line).toList := by
  have hsplit : splitlines (line ++ ['\n']) = [line] := splitlinesFrom_line hl [] []
  rw [hsplit, bindings_cons]
  exact List.append_nil _

/-- What is read of a line comes back with any value, as the binding of the line or as a
comment. -/
theorem readLead_some {line lead key value : Str}
    (h : readLead line = (lead, some (key, value))) :
    IsKey key ∧ lead ⊆ line ∧
      (parseAssignment line = none ∨ parseAssignment line = some (key, value)) ∧
      ∀ rest, parseAssignment (lead ++ (key ++ '=' :: rest)) =
        (parseAssignment line).map fun _ => (key, (parseValue rest).1) := by
  rw [readLead] at h
  rcases hline : parseAssignment line with _ | b
  · rw [hline] at h
    rcases hcomment : commented line with _ | ⟨before, body⟩
    · rw [hcomment] at h
      cases h
    · rw [hcomment] at h
      obtain ⟨rfl, hbody⟩ := Prod.mk.inj h
      obtain ⟨hsplit, hlead⟩ := commented_some hcomment
      refine ⟨parseAssignment_isKey hbody, ?_, .inl rfl, fun rest => (hlead _).parseAssignment⟩
      rw [hsplit]
      exact List.subset_append_left _ _
  · rw [hline] at h
    obtain ⟨rfl, hb⟩ := Prod.mk.inj h
    obtain rfl := Option.some.inj hb
    have hkey : IsKey key := parseAssignment_isKey hline
    exact ⟨hkey, List.nil_subset _, .inr rfl, fun rest => parseAssignment_key hkey rest⟩

theorem eq_of_parseAssignment {line lead key value : Str} {b : Str × Str}
    (h : readLead line = (lead, some (key, value))) (hb : parseAssignment line = some b) :
    b = (key, value) := by
  rcases (readLead_some h).2.2.1 with hline | hline
  · rw [hline] at hb
    cases hb
  · exact Option.some.inj (hb.symm.trans hline)

theorem readLead_none {line lead : Str} (h : readLead line = (lead, none)) :
    parseAssignment line = none := by
  rcases hline : parseAssignment line with _ | b
  · rfl
  · rw [readLead, hline] at h
    cases h

/-- What comes before an assignment makes a comment of the line. -/
theorem readLead_comment {line lead : Str} {parsed : Option (Str × Str)}
    (h : readLead line = (lead, parsed)) (hlead : lead ≠ []) : CommentLine line := by
  rw [readLead] at h
  rcases hline : parseAssignment line with _ | b
  · rw [hline] at h
    rcases hcomment : commented line with _ | ⟨before, body⟩
    · rw [hcomment] at h
      exact absurd (Prod.mk.inj h).1.symm hlead
    · obtain ⟨hsplit, hcomment⟩ := commented_some hcomment
      rw [hsplit]
      exact hcomment body
  · rw [hline] at h
    exact absurd (Prod.mk.inj h).1.symm hlead

/-! ## Prose -/

/-- What is hidden is of what was there, and of the mask. -/
theorem proseAt_subset {s hidden : Str} {n : ℕ} (h : proseAt s = some (hidden, n)) :
    hidden ⊆ s ++ mask := by
  simp only [proseAt] at h
  split at h
  · next rest hrest =>
    obtain ⟨-, h⟩ := Option.ite_none_right_eq_some.1 h
    obtain ⟨rfl, -⟩ := Prod.mk.inj (Option.some.inj h)
    have hbehind : s.drop (s.takeWhile isKeyChar).length ⊆ s := (List.drop_suffix _ s).subset
    have hkey : s.takeWhile isKeyChar ⊆ s := (List.takeWhile_prefix _).subset
    have hgap : (s.drop (s.takeWhile isKeyChar).length).takeWhile isGap ⊆ s :=
      List.Subset.trans (List.takeWhile_prefix _).subset hbehind
    have hequals : '=' :: rest ⊆ s := by
      rw [← hrest]
      exact List.Subset.trans (List.drop_suffix _ _).subset hbehind
    have hafter : '=' :: rest.takeWhile isGap ⊆ s := List.Subset.trans
      (List.cons_subset_cons _ (List.takeWhile_prefix _).subset) hequals
    have hword : (rest.dropWhile isGap).takeWhile (!isWhite ·) ⊆ s := List.Subset.trans
      (List.takeWhile_prefix _).subset (List.Subset.trans (List.dropWhile_suffix _).subset
        (List.Subset.trans (List.subset_cons_self _ _) hequals))
    have htail : ((rest.dropWhile isGap).takeWhile (!isWhite ·)).tail.rtakeWhile isTail ⊆ s :=
      List.Subset.trans (List.rtakeWhile_suffix _ _).subset
        (List.Subset.trans (List.tail_subset _) hword)
    have hwhole := List.append_subset.2
      ⟨List.append_subset.2 ⟨hkey, List.append_subset.2 ⟨hgap, hafter⟩⟩, hword⟩
    split
    · intro c hc
      simp only [List.mem_append] at hc ⊢
      rcases hc with (hc | hc) | hc
      · exact .inl (hwhole (List.mem_append_left _ (by simpa using hc)))
      · exact .inr hc
      · exact .inl (htail hc)
    · exact List.Subset.trans hwhole (List.subset_append_left _ _)
  · cases h

section Prose

variable [PyUnicode]

theorem maskProseFrom_subset (word : Bool) (skip : ℕ) (s : Str) :
    maskProseFrom word skip s ⊆ s ++ mask := by
  induction s generalizing word skip with
  | nil => simp [maskProseFrom]
  | cons c cs ih =>
    have htail : cs ++ mask ⊆ c :: cs ++ mask := fun d hd => List.mem_cons_of_mem c hd
    cases skip with
    | succ skip => exact List.Subset.trans (ih _ skip) htail
    | zero =>
      rw [maskProseFrom]
      split
      · next hidden n hprose =>
        have hhidden : hidden ⊆ c :: cs ++ mask := by
          cases word with
          | true => cases hprose
          | false => exact proseAt_subset hprose
        exact List.append_subset.2 ⟨hhidden, List.Subset.trans (ih _ _) htail⟩
      · exact List.cons_subset.2 ⟨by simp, List.Subset.trans (ih _ _) htail⟩

theorem singleLine_maskProse {line : Str} (hl : SingleLine line) : SingleLine (maskProse line) := by
  have hmask : SingleLine mask := by decide
  exact (hl.append hmask).mono (maskProseFrom_subset false 0 line)

/-- Nothing is hidden where no key can begin. -/
theorem maskProseFrom_cons {c : Char} (hc : isKeyStart c = false) (word : Bool) (cs : Str) :
    maskProseFrom word 0 (c :: cs) = c :: maskProseFrom (isWord c) 0 cs := by
  have hkey : ((c :: cs).takeWhile isKeyChar).head?.any isKeyStart = false := by
    rw [List.takeWhile_cons]
    split
    · exact hc
    · rfl
  have hnone : proseAt (c :: cs) = none := by
    simp only [proseAt, hkey]
    split
    · rfl
    · rfl
  rw [maskProseFrom, hnone, ite_self]

/-- A comment stays one. -/
theorem CommentLine.maskProse {line : Str} (h : CommentLine line) :
    CommentLine (maskProse line) := by
  obtain ⟨gap, rest, rfl, hgap⟩ := h
  have hkeep : ∀ word, ∃ rest', maskProseFrom word 0 (gap ++ '#' :: rest) =
      gap ++ '#' :: rest' := by
    induction gap with
    | nil => exact fun word => ⟨_, maskProseFrom_cons (by decide) word rest⟩
    | cons c gap ih =>
      intro word
      obtain ⟨hc, hgap⟩ := List.forall_mem_cons.1 hgap
      have hstart : isKeyStart c = false := by
        rcases hstart : isKeyStart c with _ | _
        · rfl
        · have hwhite := @isWhite_of_isKeyChar c (by simp [isKeyChar, hstart])
          simp [isGap, hwhite] at hc
      obtain ⟨rest', heq⟩ := ih hgap (isWord c)
      exact ⟨rest', by rw [List.cons_append, maskProseFrom_cons hstart, heq, List.cons_append]⟩
  obtain ⟨rest', heq⟩ := hkeep false
  exact ⟨gap, rest', heq, hgap⟩

/-- A line that is written as it is, or as the comment it is with secrets hidden. -/
theorem parseAssignment_shown {line shown : Str} (hl : SingleLine line)
    (h : shown = line ∨ CommentLine line ∧ shown = maskProse line) :
    SingleLine shown ∧ parseAssignment shown = parseAssignment line := by
  rcases h with rfl | ⟨hcomment, rfl⟩
  · exact ⟨hl, rfl⟩
  · exact ⟨singleLine_maskProse hl, by
      rw [hcomment.maskProse.parseAssignment, hcomment.parseAssignment]⟩

end Prose

/-! ## A line -/

section Lines

/-- What is written for a value is read as that value. -/
theorem parseValue_encodeValue (v : Str) : (parseValue (encodeValue v)).1 = v := by
  unfold encodeValue
  split
  · simpa using congrArg Prod.fst (parse_quoted v [])
  · next hneeds =>
    by_cases hv : v = []
    · rw [hv]
      rfl
    · simpa using (parse_bare hv (by simpa using hneeds) []).2 (.inl (by simp))

/-- A value that is written is read back as it is, and one on two lines as one on a line. -/
theorem parseValue_ne {key value shown first : Str} {lines : List Str} (hkey : IsKey key)
    (hlines : splitlines (encodeValue shown ++ ['\n']) = first :: lines) (hne : shown ≠ value)
    (hsingle : SingleLine value → SingleLine shown) : (parseValue first).1 ≠ value := by
  by_cases hshown : SingleLine shown
  · have hfirst : [encodeValue shown] = first :: lines :=
      (splitlinesFrom_line (singleLine_encodeValue hshown) [] []).symm.trans hlines
    obtain ⟨rfl, -⟩ := List.cons.inj hfirst
    rwa [parseValue_encodeValue]
  · rintro rfl
    obtain ⟨first', lines', hall⟩ := splitlinesFrom_first (encodeValue shown)
    obtain ⟨rfl, rfl⟩ := List.cons.inj ((hall []).symm.trans hlines)
    have hbefore : SingleLine (key ++ ['=']) := hkey.singleLine.append (by decide)
    have hmem : key ++ '=' :: first' ∈
        splitlines (joinLines [key ++ '=' :: encodeValue shown]) := by
      have htext : joinLines [key ++ '=' :: encodeValue shown] =
          key ++ ['='] ++ (encodeValue shown ++ ['\n']) := by simp [joinLines_eq]
      rw [htext, splitlines, splitlinesFrom_singleLine hbefore, hall]
      simp
    obtain ⟨item, hitem, hpiece⟩ := piece_of_mem_splitlines hmem
    rw [List.mem_singleton.1 hitem, ← List.append_nil (encodeValue shown)] at hpiece
    exact hshown (hsingle (piece_value hkey (by simp) hshown hpiece (hkey.parseLine first')))

theorem eq_of_encodeEnv {value encoded : Str} (h : encodeEnv value = .ok encoded) :
    encoded = encodeValue value := by
  unfold encodeEnv at h
  rcases hw : writable (String.ofList value) with e | written
  · rw [hw] at h
    cases h
  · rw [hw] at h
    exact (Except.ok.inj h).symm

/-- What is asked of what a binding becomes. -/
structure Kept (b b' : Str × Str) : Prop where
  key : b'.1 = b.1
  same : isSecretKey b.1 = false → ¬HasCredentials b.2 → b' = b
  masked : isSecretKey b.1 = true → b.2 ≠ [] → b'.2 = mask

variable [UrlParse]

/-- What is written for a binding. -/
structure MaskedTo (b b' : Str × Str) : Prop where
  key : b'.1 = b.1
  same : isSecretKey b.1 = false → maskUrl b.2 = b.2 → b' = b
  changed : isSecretKey b.1 = false → TakenForUrl b.2 → maskUrl b.2 ≠ b.2 → b'.2 ≠ b.2
  masked : isSecretKey b.1 = true → b.2 ≠ [] → b'.2 = mask

theorem MaskedTo.refl {b : Str × Str} (h : isSecretKey b.1 = true → b.2 = [])
    (hsame : isSecretKey b.1 = false → maskUrl b.2 = b.2) : MaskedTo b b where
  key := rfl
  same _ _ := rfl
  changed hsecret _ hne := absurd (hsame hsecret) hne
  masked hsecret hne := absurd (h hsecret) hne

/-- A value that is no URL with credentials is taken for one, and changed. -/
def Mistaken (b : Str × Str) : Prop :=
  isSecretKey b.1 = false ∧ ¬HasCredentials b.2 ∧ TakenForUrl b.2 ∧ maskUrl b.2 ≠ b.2

theorem MaskedTo.kept_iff {b b' : Str × Str} (h : MaskedTo b b') : Kept b b' ↔ ¬Mistaken b := by
  constructor
  · rintro hkept ⟨hsecret, hnone, htaken, hne⟩
    exact h.changed hsecret htaken hne (by rw [hkept.same hsecret hnone])
  · refine fun hnot => ⟨h.key, fun hsecret hnone => h.same hsecret ?_, h.masked⟩
    by_contra hne
    exact hnot ⟨hsecret, hnone, not_not.1 (mt maskUrl_eq_self hne), hne⟩

/-- What is masked is kept where it is not mistaken. -/
theorem forall₂_kept_iff {bs bs' : List (Str × Str)} (h : List.Forall₂ MaskedTo bs bs') :
    List.Forall₂ Kept bs bs' ↔ ∀ b ∈ bs, ¬Mistaken b := by
  induction h with
  | nil => simp
  | cons hb _ ih => rw [List.forall₂_cons, List.forall_mem_cons, hb.kept_iff, ih]

/-- A URL whose masked form has a line behind its first that binds something. -/
def Spills (line : Str) : Prop :=
  ∃ lead key value, readLead line = (lead, some (key, value)) ∧ value ≠ [] ∧
    isSecretKey key = false ∧ maskUrl value ≠ value ∧ (encodeEnv (maskUrl value)).isOk = true ∧
    bindings (splitlines (encodeValue (maskUrl value) ++ ['\n'])).tail ≠ []

theorem spills_iff {line lead key value : Str} (hread : readLead line = (lead, some (key, value))) :
    Spills line ↔ value ≠ [] ∧ isSecretKey key = false ∧ maskUrl value ≠ value ∧
      (encodeEnv (maskUrl value)).isOk = true ∧
      bindings (splitlines (encodeValue (maskUrl value) ++ ['\n'])).tail ≠ [] := by
  constructor
  · rintro ⟨lead', key', value', hread', h⟩
    rw [hread] at hread'
    obtain ⟨-, hparsed⟩ := Prod.mk.inj hread'
    obtain ⟨rfl, rfl⟩ := Prod.mk.inj (Option.some.inj hparsed)
    exact h
  · exact fun h => ⟨lead, key, value, hread, h⟩

variable [PyUnicode]

/-- The bindings of what is written for a line. -/
def written (line : Str) : List (Str × Str) := bindings (splitlines (maskLine line ++ ['\n']))

/-- What is written behind the key of a line, on one line or more. -/
theorem written_lead {line lead key value text : Str}
    (hread : readLead line = (lead, some (key, value))) (hl : SingleLine line)
    (hout : maskLine line = lead ++ (key ++ '=' :: text)) :
    ∃ first lines, splitlines (text ++ ['\n']) = first :: lines ∧
      written line = ((parseAssignment line).map fun _ => (key, (parseValue first).1)).toList ++
        bindings lines := by
  obtain ⟨hkey, hsubset, -, hparse⟩ := readLead_some hread
  obtain ⟨first, lines, hlines⟩ := splitlinesFrom_first text
  have hbefore : SingleLine (lead ++ (key ++ ['='])) := by
    exact (hl.mono hsubset).append (hkey.singleLine.append (by decide))
  have hwritten : splitlines (maskLine line ++ ['\n']) =
      (lead ++ (key ++ '=' :: first)) :: lines := by
    have htext : maskLine line ++ ['\n'] = lead ++ (key ++ ['=']) ++ (text ++ ['\n']) := by
      simp [hout]
    rw [htext, splitlines, splitlinesFrom_singleLine hbefore, hlines]
    simp
  refine ⟨first, lines, hlines [], ?_⟩
  rw [written, hwritten, bindings_cons, hparse]

/-- What is written for a line. -/
inductive Masked (line : Str) : Prop
  /-- The line, or the comment with its prose masked. -/
  | shown (out : maskLine line = line ∨ CommentLine line ∧ maskLine line = maskProse line)
      (same : ∀ b, parseAssignment line = some b → MaskedTo b b) (still : ¬Spills line)
  /-- The key with the mask. -/
  | hidden {lead key value : Str} (read : readLead line = (lead, some (key, value)))
      (out : maskLine line = lead ++ (key ++ '=' :: mask))
      (masked : MaskedTo (key, value) (key, mask)) (still : ¬Spills line)
  /-- The key with the masked form of a URL. -/
  | url {lead key value : Str} (read : readLead line = (lead, some (key, value)))
      (out : maskLine line = lead ++ (key ++ '=' :: encodeValue (maskUrl value)))
      (secret : isSecretKey key = false) (credentials : maskUrl value ≠ value)
      (spills : Spills line ↔
        bindings (splitlines (encodeValue (maskUrl value) ++ ['\n'])).tail ≠ [])

/-- A line that assigns nothing, not even in a comment. -/
theorem masked_of_none {line lead : Str} (hread : readLead line = (lead, none))
    (hcommented : (if isComment line then maskProse line else line) = line ∨
      CommentLine line ∧ (if isComment line then maskProse line else line) = maskProse line) :
    Masked line := by
  refine .shown ?_ ?_ ?_
  · simpa only [maskLine, hread] using hcommented
  · intro b hb
    rw [readLead_none hread] at hb
    cases hb
  · rintro ⟨_, _, _, hread', -⟩
    rw [hread] at hread'
    cases hread'

/-- A value that is no secret and not empty. -/
theorem masked_of_value {line lead key value : Str}
    (hread : readLead line = (lead, some (key, value))) (hvalue : value ≠ [])
    (hsecret : isSecretKey key = false) : Masked line := by
  have hspills := spills_iff hread
  have hplain : ¬isSecretKey key = true := by simp [hsecret]
  by_cases hurl : maskUrl value = value
  · refine .shown ?_ (fun b hb => ?_) fun h => (hspills.1 h).2.2.1 hurl
    swap
    · rw [eq_of_parseAssignment hread hb]
      exact .refl (fun h => absurd h hplain) fun _ => hurl
    simp only [maskLine, hread, if_neg hvalue, hsecret, hurl, Bool.false_eq_true, if_false, if_true]
    split
    · next hlead => exact .inr ⟨readLead_comment hread hlead, rfl⟩
    · exact .inl rfl
  · rcases hencode : encodeEnv (maskUrl value) with e | encoded
    · refine .hidden hread ?_ ⟨rfl, fun _ hsame => absurd hsame hurl, fun _ htaken _ heq => ?_,
        fun h => absurd h hplain⟩ fun h => ?_
      · simp only [maskLine, hread, if_neg hvalue, hsecret, hurl, Bool.false_eq_true, if_false,
          hencode, List.append_assoc]
      · obtain rfl : mask = value := heq
        exact not_takenForUrl_mask htaken
      · have hok := (hspills.1 h).2.2.2.1
        rw [hencode] at hok
        cases hok
    · have hencoded := eq_of_encodeEnv hencode
      refine .url hread ?_ hsecret hurl ?_
      · simp only [maskLine, hread, if_neg hvalue, hsecret, hurl, Bool.false_eq_true, if_false,
          hencode, hencoded, List.append_assoc]
      · rw [hspills, hencode]
        exact ⟨fun h => h.2.2.2.2, fun h => ⟨hvalue, hsecret, hurl, rfl, h⟩⟩

theorem masked_line {line : Str} (hl : SingleLine line) : Masked line := by
  have hcommented : (if isComment line then maskProse line else line) = line ∨
      CommentLine line ∧ (if isComment line then maskProse line else line) = maskProse line := by
    split
    · next h => exact .inr ⟨commentLine_of_isComment hl h, rfl⟩
    · exact .inl rfl
  rcases hread : readLead line with ⟨lead, _ | ⟨key, value⟩⟩
  · exact masked_of_none hread hcommented
  have hspills := spills_iff hread
  by_cases hvalue : value = []
  · refine .shown ?_ ?_ fun h => (hspills.1 h).1 hvalue
    · simpa only [maskLine, hread, if_pos hvalue] using hcommented
    · intro b hb
      rw [eq_of_parseAssignment hread hb, hvalue]
      exact .refl (fun _ => rfl) fun _ => rfl
  rcases hsecret : isSecretKey key with _ | _
  · exact masked_of_value hread hvalue hsecret
  · have hnot : isSecretKey key ≠ false := by simp [hsecret]
    refine .hidden hread ?_ ⟨rfl, fun h => absurd h hnot, fun h => absurd h hnot,
      fun _ _ => rfl⟩ fun h => hnot (hspills.1 h).2.1
    simp only [maskLine, hread, if_neg hvalue, hsecret, if_true, List.append_assoc]

/-- What is written for a line binds what the line binds, and what spills behind it. -/
theorem written_spec {line : Str} (hl : SingleLine line) :
    ∃ own spilled, written line = own ++ spilled ∧
      List.Forall₂ MaskedTo (parseAssignment line).toList own ∧ (Spills line ↔ spilled ≠ []) := by
  cases masked_line hl with
  | shown hout hsame hstill =>
    obtain ⟨hsingle, hparse⟩ := parseAssignment_shown hl hout
    refine ⟨(parseAssignment line).toList, [], ?_, ?_, by simp [hstill]⟩
    · rw [written, bindings_singleLine hsingle, hparse, List.append_nil]
    · rcases hline : parseAssignment line with _ | b
      · exact .nil
      · exact .cons (hsame b hline) .nil
  | @hidden lead key value hread hout hmasked hstill =>
    obtain ⟨hkey, hsubset, hline, hparse⟩ := readLead_some hread
    have hsingle : SingleLine (maskLine line) := by
      rw [hout]
      exact (hl.mono hsubset).append (hkey.singleLine_binding (by decide))
    refine ⟨((parseAssignment line).map fun _ => (key, mask)).toList, [], ?_, ?_,
      by simp [hstill]⟩
    · rw [written, bindings_singleLine hsingle, hout, hparse, List.append_nil]
      rfl
    · rcases hline with hline | hline
      · rw [hline]
        exact .nil
      · rw [hline]
        exact .cons hmasked .nil
  | url hread hout hsecret hurl hspills =>
    obtain ⟨first, lines, hlines, hwritten⟩ := written_lead hread hl hout
    rw [hlines] at hspills
    refine ⟨_, _, hwritten, ?_, hspills⟩
    obtain ⟨hkey, -, hline | hline, -⟩ := readLead_some hread
    · rw [hline]
      exact .nil
    · rw [hline]
      refine .cons ⟨rfl, fun _ hsame => absurd hsame hurl, fun _ _ _ => ?_, fun hmask => ?_⟩ .nil
      · exact parseValue_ne hkey hlines hurl singleLine_maskUrl
      · rw [hsecret] at hmask
        cases hmask

end Lines

/-! ## The text -/

/-- The lines that are dropped as the rest of a secret. -/
def droppedLines : Option Char → List Str → List Str
  | _, [] => []
  | some quote, line :: lines =>
    line :: droppedLines (if closes line quote then none else some quote) lines
  | none, line :: lines => droppedLines (openedQuote line) lines

/-- The lines that are not. -/
def maskableLines : Option Char → List Str → List Str
  | _, [] => []
  | some quote, line :: lines =>
    maskableLines (if closes line quote then none else some quote) lines
  | none, line :: lines => line :: maskableLines (openedQuote line) lines

/-- An assignment stands where the rest of a secret is dropped. -/
def Drops (text : Str) : Prop := bindings (droppedLines none (envLines text)) ≠ []

section Text

variable [UrlParse]

/-- A URL in the text spills. -/
def SpillsInto (text : Str) : Prop := ∃ line ∈ maskableLines none (envLines text), Spills line

/-- A value in the text is taken for a URL with credentials that is none. -/
def Mistakes (text : Str) : Prop := ∃ b ∈ bindings (envLines text), Mistaken b

variable [PyUnicode]

/-- The masked text binds what the text does, in the same order, with secrets masked. -/
def KeepsBindings (text : Str) : Prop :=
  List.Forall₂ Kept (bindings (envLines text)) (bindings (splitlines (maskedEnv text)))

theorem bindings_maskedLines (closing : Option Char) (lines : List Str) :
    bindings (splitlines (joinLines (maskedLines closing lines))) =
      (maskableLines closing lines).flatMap written := by
  have hmap : ∀ closing,
      maskedLines closing lines = (maskableLines closing lines).map maskLine := by
    induction lines with
    | nil => exact fun closing => by cases closing <;> rfl
    | cons line lines ih =>
      intro closing
      cases closing with
      | none => rw [maskedLines, maskableLines, List.map_cons, ih]
      | some quote => rw [maskedLines, maskableLines, ih]
  rw [joinLines_eq, splitlines_flatMap, hmap, List.flatMap_map]
  induction maskableLines closing lines with
  | nil => rfl
  | cons line lines ih => rw [List.flatMap_cons, List.flatMap_cons, bindings_append, ih]; rfl

/-- Where nothing is dropped or spilled, what is bound is masked line by line. -/
theorem forall₂_maskedTo {closing : Option Char} {lines : List Str}
    (hl : ∀ line ∈ lines, SingleLine line) (hdrop : bindings (droppedLines closing lines) = [])
    (hspill : ∀ line ∈ maskableLines closing lines, ¬Spills line) :
    List.Forall₂ MaskedTo (bindings lines) ((maskableLines closing lines).flatMap written) := by
  induction lines generalizing closing with
  | nil =>
    cases closing with
    | none => exact .nil
    | some quote => exact .nil
  | cons line lines ih =>
    obtain ⟨hline, hlines⟩ := List.forall_mem_cons.1 hl
    cases closing with
    | none =>
      rw [maskableLines, List.forall_mem_cons] at hspill
      obtain ⟨own, spilled, hwritten, hmasked, hiff⟩ := written_spec hline
      have hnone : spilled = [] := by
        by_contra hne
        exact hspill.1 (hiff.2 hne)
      rw [maskableLines, List.flatMap_cons, bindings_cons, hwritten, hnone, List.append_nil]
      exact List.rel_append hmasked (ih hlines hdrop hspill.2)
    | some quote =>
      rw [droppedLines, bindings_cons, List.append_eq_nil_iff] at hdrop
      rw [maskableLines, bindings_cons, hdrop.1]
      exact ih hlines hdrop.2 hspill

/-- What is bound on the lines that are dropped is missing, what spills is added. -/
theorem exists_length_eq {closing : Option Char} {lines : List Str}
    (hl : ∀ line ∈ lines, SingleLine line) :
    ∃ spilled, ((maskableLines closing lines).flatMap written).length +
        (bindings (droppedLines closing lines)).length = (bindings lines).length + spilled ∧
      (spilled ≠ 0 ↔ ∃ line ∈ maskableLines closing lines, Spills line) := by
  induction lines generalizing closing with
  | nil =>
    cases closing with
    | none => exact ⟨0, rfl, by simp [maskableLines]⟩
    | some quote => exact ⟨0, rfl, by simp [maskableLines]⟩
  | cons line lines ih =>
    obtain ⟨hline, hlines⟩ := List.forall_mem_cons.1 hl
    cases closing with
    | none =>
      obtain ⟨n, hlength, hn⟩ := @ih (openedQuote line) hlines
      obtain ⟨own, spilled, hwritten, hkept, hiff⟩ := written_spec hline
      refine ⟨spilled.length + n, ?_, ?_⟩
      · rw [maskableLines, droppedLines, List.flatMap_cons, bindings_cons, hwritten]
        simp only [List.length_append, hkept.length_eq]
        omega
      · rw [maskableLines, List.exists_mem_cons_iff, hiff, ← hn, ← List.length_pos_iff]
        omega
    | some quote =>
      obtain ⟨n, hlength, hn⟩ := @ih (if closes line quote then none else some quote) hlines
      refine ⟨n, ?_, hn⟩
      rw [maskableLines, droppedLines, bindings_cons, bindings_cons]
      simp only [List.length_append]
      omega

end Text

/-! ## What is not kept -/

/-- Whether the value a line assigns is complete on it : a value in quotes is closed. -/
def isComplete (line : Str) : Bool :=
  match matchAssign line with
  | none => true
  | some (_, rest) =>
    match rest.dropWhile fun c => c = ' ' ∨ c = '\t' with
    | '"' :: cs => (scanQuoted '"' false cs).isSome
    | '\'' :: cs => (scanQuoted '\'' false cs).isSome
    | _ => true

/-- A password that ends in a backslash, as `encode_value` writes it, before another setting. -/
def backslashEnv : Str :=
  joinLines ["WEB_PASSWORD=".toList ++ encodeValue "x\\".toList, "SITE_NAME=roof".toList]

/-- Any netloc is one. -/
@[reducible] def UrlParse.anyHost : UrlParse where
  checkNetloc _ := true

/-- The ASCII letters and digits. -/
@[reducible] def asciiUnicode : PyUnicode where
  isalnum := Char.isAlphanum

/-- The name of an agency, with whom to write to. -/
def contactEnv : Str := joinLines ["AGENCY=Geodesy dept: ops@example.org".toList]

/-- It is no URL, and what is between the colon and the `@` is masked. -/
theorem contact_masked :
    bindings (envLines contactEnv) =
        [("AGENCY".toList, "Geodesy dept: ops@example.org".toList)] ∧
      bindings (splitlines (@maskedEnv asciiUnicode UrlParse.anyHost contactEnv)) =
        [("AGENCY".toList, "Geodesy dept:***@example.org".toList)] ∧
      ¬HasCredentials "Geodesy dept: ops@example.org".toList :=
  ⟨by decide +kernel, by decide +kernel, fun h => absurd (h.noBlank ' ' (by decide)) (by decide)⟩

end Backup

end Mtrtk
