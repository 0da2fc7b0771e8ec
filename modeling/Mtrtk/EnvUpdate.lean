import Mtrtk.EnvFile

/-!
# An update of a `.env` file

`update_env` puts a value between its key and what followed the old one (`tailOf`). What is read
of it is `heldValue` : the value in quotes in any case, a bare one only before blanks or a comment,
an empty one unless what follows it is a value of its own (`heldValue_eq_iff`).

`lastEntry_updatedLines` says so of the lines written, and `lastEntry_updatedLines_other` that the
other keys are bound as before.
-/

namespace Mtrtk

namespace EnvFile

/-! ## The lines of an update -/

/-- What is read of a value that is written before a tail. -/
def heldValue (value tail : Str) : Str :=
  if value = [] ∧ (strip tail).head? = some '#' then [] else (parseValue (value ++ tail)).1

variable {encoded : List (Str × Str)} {lines : List Str} {key value : Str}

theorem lastEntry_append (a b : List Str) (key : Str) :
    lastEntry (a ++ b) key = (lastEntry b key).or (lastEntry a key) := by
  simp [lastEntry, entriesOf]

theorem lastEntry_cons (raw : Str) (lines : List Str) (key : Str) :
    lastEntry (raw :: lines) key = (lastEntry lines key).or (lastEntry [raw] key) :=
  lastEntry_append [raw] lines key

theorem lastEntry_none {raw : Str} (h : parseLine raw = none) (key : Str) :
    lastEntry [raw] key = none := by
  simp [lastEntry, entriesOf, h]

theorem lastEntry_some {raw : Str} {e : EnvEntry} (h : parseLine raw = some e) (key : Str) :
    lastEntry [raw] key = if e.key = key then some e else none := by
  by_cases he : e.key = key <;> simp [lastEntry, entriesOf, h, he]

theorem mem_of_lastEntry {e : EnvEntry} (h : lastEntry lines key = some e) :
    e.key = key ∧ ∃ raw ∈ lines, parseLine raw = some e := by
  rw [lastEntry, List.findRev?_eq_find?_reverse] at h
  exact ⟨by simpa using List.find?_some h,
    List.mem_filterMap.1 (List.mem_reverse.1 (List.mem_of_find?_eq_some h))⟩

theorem lastEntry_writtenLines (hkey : IsKey key) (value tail k : Str) :
    (lastEntry (writtenLines key value tail) k).map EnvEntry.value =
      if key = k then some (heldValue value tail) else none := by
  unfold writtenLines heldValue
  split
  next h =>
    obtain ⟨cs, hcs⟩ := List.head?_eq_some_iff.1 h.2
    rw [lastEntry_cons, lastEntry_some (hkey.parseLine []), hcs, lastEntry_none (parseLine_hash cs),
      Option.or_none, apply_ite (Option.map EnvEntry.value)]
    rfl
  next =>
    rw [lastEntry_some (hkey.parseLine _), apply_ite (Option.map EnvEntry.value)]
    rfl

/-- Another key keeps its bindings. -/
theorem lastEntry_rewriteLines_other (hk : encoded.lookup key = none) :
    (lastEntry (rewriteLines encoded lines) key).map EnvEntry.value =
      (lastEntry lines key).map EnvEntry.value := by
  induction lines with
  | nil => rfl
  | cons raw lines ih =>
    have hkept : (lastEntry (raw :: rewriteLines encoded lines) key).map EnvEntry.value =
        (lastEntry (raw :: lines) key).map EnvEntry.value := by
      rw [lastEntry_cons, lastEntry_cons raw lines, Option.map_or, Option.map_or, ih]
    rw [rewriteLines]
    split
    next => exact hkept
    next e he =>
      split
      next => exact hkept
      next value hvalue =>
        have hne : e.key ≠ key := fun heq => by simp [heq, hk] at hvalue
        rw [lastEntry_cons raw lines, lastEntry_some he, if_neg hne, Option.or_none]
        split
        · exact ih
        · rw [lastEntry_append, Option.map_or, ih, lastEntry_writtenLines (isKey_of_parseLine he),
            if_neg hne, Option.or_none]

/-- The last binding of an updated key has its new value, and the tail of the old one. -/
theorem lastEntry_rewriteLines (hk : encoded.lookup key = some value) :
    (lastEntry (rewriteLines encoded lines) key).map EnvEntry.value =
      (lastEntry lines key).map fun e => heldValue value e.comment := by
  induction lines with
  | nil => rfl
  | cons raw lines ih =>
    have hkept : lastEntry [raw] key = none →
        (lastEntry (raw :: rewriteLines encoded lines) key).map EnvEntry.value =
          (lastEntry (raw :: lines) key).map fun e => heldValue value e.comment := fun hraw => by
      rw [lastEntry_cons, lastEntry_cons raw lines, hraw, Option.or_none, Option.or_none, ih]
    rw [rewriteLines]
    split
    next he => exact hkept (lastEntry_none he key)
    next e he =>
      rw [lastEntry_some he] at hkept
      split
      next hnone => exact hkept (if_neg fun heq => by simp [heq, hk] at hnone)
      next value' hvalue =>
        rw [lastEntry_cons raw lines, lastEntry_some he]
        by_cases heq : e.key = key
        · rw [heq, hk, Option.some.injEq] at hvalue
          subst hvalue
          rw [heq, if_pos rfl]
          cases hlast : lastEntry lines key with
          | some e' =>
            rw [if_pos (by simp), ih, hlast]
            rfl
          | none =>
            rw [if_neg (by simp), lastEntry_append, Option.map_or, ih, hlast,
              lastEntry_writtenLines (heq ▸ isKey_of_parseLine he), if_pos rfl]
            rfl
        · rw [if_neg heq, Option.or_none]
          split
          · exact ih
          · rw [lastEntry_append, Option.map_or, ih,
              lastEntry_writtenLines (isKey_of_parseLine he), if_neg heq, Option.or_none]

theorem lookup_filter_key (encoded : List (Str × Str)) (p : Str → Bool) (key : Str) :
    (encoded.filter fun e => p e.1).lookup key = if p key then encoded.lookup key else none := by
  induction encoded with
  | nil => simp
  | cons e encoded ih =>
    rw [List.filter_cons]
    by_cases heq : key = e.1
    · subst heq
      cases hp : p e.1 with
      | true => rw [if_pos rfl, if_pos rfl, List.lookup_cons_self, List.lookup_cons_self]
      | false => rw [if_neg (by simp), ih, hp, if_neg (by simp), if_neg (by simp)]
    · have hne : (key == e.1) = false := beq_false_of_ne heq
      have hskip : ((e :: (encoded.filter fun e => p e.1)).lookup key) =
          (encoded.filter fun e => p e.1).lookup key := by
        rw [List.lookup_cons, hne]
      rw [List.lookup_cons, hne, apply_ite (List.lookup key), hskip, ite_self]
      exact ih

/-- A key that the text did not have. -/
theorem lastEntry_fresh (hkeys : ∀ e ∈ encoded, IsKey e.1) (hnodup : (encoded.map Prod.fst).Nodup)
    (key : Str) :
    (lastEntry (encoded.map fun e => e.1 ++ '=' :: e.2) key).map EnvEntry.value =
      (encoded.lookup key).map fun value => heldValue value [] := by
  induction encoded with
  | nil => rfl
  | cons e encoded ih =>
    obtain ⟨hkey, hkeys⟩ := List.forall_mem_cons.1 hkeys
    obtain ⟨hfresh, hnodup⟩ := List.nodup_cons.1 hnodup
    rw [List.map_cons, lastEntry_cons, Option.map_or, ih hkeys hnodup,
      lastEntry_some (hkey.parseLine e.2)]
    by_cases heq : e.1 = key
    · have hnone : encoded.lookup key = none := List.lookup_eq_none_iff.2 fun e' he' => by
        simpa [heq] using fun h : key = e'.1 =>
          hfresh (heq ▸ h ▸ List.mem_map_of_mem he')
      rw [hnone, if_pos heq, ← heq, List.lookup_cons_self, Option.map_none, Option.none_or,
        Option.map_some, Option.map_some, heldValue,
        if_neg (fun h => absurd h.2 (by decide)), List.append_nil]
    · rw [if_neg heq, List.lookup_cons, beq_false_of_ne (Ne.symm heq), Option.map_none,
        Option.or_none]

/-- What follows the value of a key in its last binding. -/
def tailOf (lines : List Str) (key : Str) : Str :=
  ((lastEntry lines key).map EnvEntry.comment).getD []

section Update

variable (hkeys : ∀ e ∈ encoded, IsKey e.1) (hnodup : (encoded.map Prod.fst).Nodup)

include hkeys hnodup

theorem lastEntry_appended (lines : List Str) (key : Str) :
    (lastEntry ((encoded.filter fun e => (lastEntry lines e.1).isNone).map
        fun e => e.1 ++ '=' :: e.2) key).map EnvEntry.value =
      if (lastEntry lines key).isNone then (encoded.lookup key).map fun value => heldValue value []
      else none := by
  rw [lastEntry_fresh (fun e he => hkeys e (List.mem_of_mem_filter he))
    (hnodup.sublist (List.filter_sublist.map _)),
    lookup_filter_key encoded (fun k => (lastEntry lines k).isNone), apply_ite (Option.map _)]
  rfl

theorem lastEntry_updatedLines_other (hk : encoded.lookup key = none) :
    (lastEntry (updatedLines encoded lines) key).map EnvEntry.value =
      (lastEntry lines key).map EnvEntry.value := by
  rw [updatedLines, lastEntry_append, Option.map_or, lastEntry_appended hkeys hnodup, hk,
    lastEntry_rewriteLines_other hk]
  simp

theorem lastEntry_updatedLines (hk : encoded.lookup key = some value) :
    (lastEntry (updatedLines encoded lines) key).map EnvEntry.value =
      some (heldValue value (tailOf lines key)) := by
  rw [updatedLines, lastEntry_append, Option.map_or, lastEntry_appended hkeys hnodup, hk,
    lastEntry_rewriteLines hk, tailOf]
  cases lastEntry lines key <;> rfl

end Update

/-! ## Each line written is one line -/

theorem scanQuoted_suffix {quote : Char} {esc : Bool} {s body tail : Str}
    (h : scanQuoted quote esc s = some (body, tail)) : tail <:+ s := by
  induction s generalizing esc body with
  | nil => cases esc <;> exact absurd h (by simp [scanQuoted])
  | cons c s ih =>
    have hstep : ∀ {esc'},
        (scanQuoted quote esc' s).map (Prod.map (c :: ·) id) = some (body, tail) →
          tail <:+ c :: s := fun hmap => by
      obtain ⟨m, hm, heq⟩ := Option.map_eq_some_iff.1 hmap
      obtain ⟨-, rfl⟩ := Prod.mk.inj heq
      exact (ih hm).trans (List.suffix_cons c s)
    cases esc with
    | true => exact hstep h
    | false =>
      rw [scanQuoted] at h
      split at h
      · obtain ⟨-, rfl⟩ := Prod.mk.inj (Option.some.inj h)
        exact List.suffix_cons c s
      · exact hstep h

theorem cutComment_suffix (s : Str) : (cutComment s).2 <:+ s := by
  induction s with
  | nil => exact List.suffix_rfl
  | cons c s ih =>
    rw [cutComment]
    split
    · exact List.suffix_rfl
    · exact ih.trans (List.suffix_cons c s)

theorem parseValue_suffix (rest : Str) : (parseValue rest).2 <:+ rest := by
  refine List.IsSuffix.trans ?_ (List.dropWhile_suffix fun c => c = ' ' ∨ c = '\t')
  have hbare : ∀ s, (parseBare s).2 <:+ s := cutComment_suffix
  simp only [parseValue]
  split
  next cs heq =>
    rw [heq]
    split
    next hscan => exact (scanQuoted_suffix hscan).trans (List.suffix_cons _ cs)
    next => exact hbare _
  next cs heq =>
    rw [heq]
    split
    next hscan => exact (scanQuoted_suffix hscan).trans (List.suffix_cons _ cs)
    next => exact hbare _
  next => exact hbare _

/-- A comment is the end of its line. -/
theorem comment_suffix {raw : Str} {e : EnvEntry} (h : parseLine raw = some e) :
    e.comment <:+ raw := by
  obtain ⟨⟨key, rest⟩, hm, rfl⟩ := Option.map_eq_some_iff.1 h
  obtain ⟨-, pre, rfl⟩ := matchAssign_some hm
  exact (parseValue_suffix rest).trans ⟨pre ++ ['='], by simp⟩

theorem singleLine_tailOf (h : ∀ l ∈ lines, SingleLine l) (key : Str) :
    SingleLine (tailOf lines key) := by
  unfold tailOf
  cases hlast : lastEntry lines key with
  | none => exact fun c hc => absurd hc List.not_mem_nil
  | some e =>
    obtain ⟨-, raw, hraw, he⟩ := mem_of_lastEntry hlast
    exact (h raw hraw).mono (comment_suffix he).subset

theorem IsKey.singleLine {key : Str} (h : IsKey key) : SingleLine key :=
  fun c hc => isLineBreak_of_isKeyChar (h.chars c hc)

theorem strip_subset (s : Str) : strip s ⊆ s :=
  List.Subset.trans (List.rdropWhile_prefix _ _).subset (List.dropWhile_suffix _).subset

theorem IsKey.singleLine_binding {key rest : Str} (h : IsKey key) (hrest : SingleLine rest) :
    SingleLine (key ++ '=' :: rest) :=
  h.singleLine.append (List.forall_mem_cons.2 ⟨rfl, hrest⟩)

theorem singleLine_encodeValue {v : Str} (h : SingleLine v) : SingleLine (encodeValue v) := by
  unfold encodeValue
  split
  · refine List.forall_mem_cons.2 ⟨rfl, SingleLine.append ?_ (by simp [SingleLine, isLineBreak])⟩
    rw [escapeValue_eq]
    intro c hc
    obtain ⟨d, hd, hcd⟩ := List.mem_flatMap.1 hc
    unfold escapeChar at hcd
    split at hcd
    · rcases List.mem_cons.1 hcd with rfl | hcd
      · rfl
      · exact List.mem_singleton.1 hcd ▸ h d hd
    · exact List.mem_singleton.1 hcd ▸ h d hd
  · exact h

/-! ## What is read of a value -/

/-- Two quotes, after horizontal blanks. -/
def opensEmpty (tail : Str) : Bool :=
  let rest := tail.dropWhile fun c => c = ' ' ∨ c = '\t'
  rest.take 2 = ['"', '"'] || rest.take 2 = ['\'', '\'']

/-- A value that is read as it was before this tail. -/
def Harmless (value tail : Str) : Prop :=
  needsQuotes value = true ∨ (∀ c ∈ tail, isWhite c = true) ∨ commentAt tail = true ∨
    value = [] ∧ (tail.head? = some '#' ∨ opensEmpty tail = true)

instance (value tail : Str) : Decidable (Harmless value tail) :=
  inferInstanceAs (Decidable (_ ∨ _ ∨ _ ∨ _))

theorem strip_head (t : Str) :
    (strip t).head? = some '#' ↔ t.head? = some '#' ∨ commentAt t = true := by
  have hdrop : (strip t).head? = some '#' ↔ (t.dropWhile isWhite).head? = some '#' := by
    obtain ⟨u, hu⟩ := List.rdropWhile_prefix isWhite (t.dropWhile isWhite)
    constructor
    · intro h
      rw [← hu, ← strip, List.head?_append, h]
      rfl
    · intro h
      have hne : strip t ≠ [] := fun hnil => by
        obtain ⟨s, hs⟩ := List.head?_eq_some_iff.1 h
        exact absurd (List.rdropWhile_eq_nil_iff.1 hnil '#' (by simp [hs])) (by decide)
      rw [← hu, ← strip, List.head?_append_of_ne_nil _ hne] at h
      exact h
  rw [hdrop]
  cases t with
  | nil => simp [commentAt]
  | cons c t =>
    cases hc : isWhite c with
    | false =>
      rw [List.dropWhile_cons_of_neg (by simp [hc]), commentAt, hc]
      simp
    | true =>
      have hne : c ≠ '#' := fun h => absurd (h ▸ hc) (by decide)
      rw [List.dropWhile_cons_of_pos hc, commentAt, hc]
      simp [hne]

theorem decodeEscapes_eq_nil {escape : Char → Option Char} {s : Str} :
    decodeEscapes escape s = [] ↔ s = [] := by
  rcases s with _ | ⟨c, _ | ⟨d, s⟩⟩
  · simp [decodeEscapes]
  · simp [decodeEscapes]
  · rw [decodeEscapes]
    split <;> simp

theorem scanQuoted_body {quote : Char} {s body tail : Str}
    (h : scanQuoted quote false s = some (body, tail)) : body = [] ↔ s.head? = some quote := by
  cases s with
  | nil => exact absurd h (by simp [scanQuoted])
  | cons c s =>
    rw [scanQuoted] at h
    split at h
    next hc =>
      obtain ⟨rfl, -⟩ := Prod.mk.inj (Option.some.inj h)
      simp [hc]
    next hc =>
      obtain ⟨m, -, heq⟩ := Option.map_eq_some_iff.1 h
      obtain ⟨rfl, -⟩ := Prod.mk.inj heq
      simp [hc]

theorem parseBare_eq_nil (s : Str) :
    (parseBare s).1 = [] ↔ (∀ c ∈ s, isWhite c = true) ∨ commentAt s = true := by
  rw [← white_cutComment]
  exact List.rdropWhile_eq_nil_iff

/-- A quote that nothing closes is read as it is. -/
theorem scanQuoted_of_head {quote : Char} {s : Str} (h : s.head? = some quote) :
    scanQuoted quote false s = some ([], s.tail) := by
  obtain ⟨t, rfl⟩ := List.head?_eq_some_iff.1 h
  simp [scanQuoted]

/-- What follows a value that is gone is read as nothing only when it is nothing to read. -/
theorem parse_empty {t : Str} (h : (strip t).head? ≠ some '#') :
    (parseValue t).1 = [] ↔ (∀ c ∈ t, isWhite c = true) ∨ opensEmpty t = true := by
  have hblank : ∀ c ∈ t.takeWhile fun c => c = ' ' ∨ c = '\t', isWhite c = true := fun c hc => by
    have hc := List.mem_takeWhile_imp hc
    rw [decide_eq_true_eq] at hc
    rcases hc with rfl | rfl <;> rfl
  obtain ⟨rest, hrest⟩ : ∃ rest, t.dropWhile (fun c => c = ' ' ∨ c = '\t') = rest := ⟨_, rfl⟩
  have hsplit : (t.takeWhile fun c => c = ' ' ∨ c = '\t') ++ rest = t := by
    rw [← hrest, List.takeWhile_append_dropWhile]
  have hwhite : (∀ c ∈ t, isWhite c = true) ↔ ∀ c ∈ rest, isWhite c = true := by
    rw [← hsplit, List.forall_mem_append]
    exact and_iff_right hblank
  have hbare : (parseBare rest).1 = [] ↔ ∀ c ∈ t, isWhite c = true := by
    rw [hwhite, parseBare_eq_nil]
    refine or_iff_left fun hat => h ?_
    rw [← hsplit, strip, List.dropWhile_append_of_pos hblank]
    exact (strip_head rest).2 (.inr hat)
  rw [opensEmpty, parseValue]
  simp only [hrest]
  split
  next cs =>
    cases hscan : scanQuoted '"' false cs with
    | some m =>
      simp only [decodeEscapes_eq_nil, scanQuoted_body hscan, hwhite]
      cases cs <;> simp [isWhite]
    | none =>
      have hne : cs.head? ≠ some '"' := fun hhead => by simp [scanQuoted_of_head hhead] at hscan
      simp only [hbare]
      cases cs <;> simp_all
  next cs =>
    cases hscan : scanQuoted '\'' false cs with
    | some m =>
      simp only [decodeEscapes_eq_nil, scanQuoted_body hscan, hwhite]
      cases cs <;> simp [isWhite]
    | none =>
      have hne : cs.head? ≠ some '\'' := fun hhead => by simp [scanQuoted_of_head hhead] at hscan
      simp only [hbare]
      cases cs <;> simp_all
  next hdouble hsingle =>
    rw [hbare]
    refine (or_iff_left fun hempty => ?_).symm
    rcases rest with _ | ⟨c, _ | ⟨d, rest⟩⟩
    · simp at hempty
    · simp at hempty
    · simp only [List.take_succ_cons, List.take_zero, List.cons.injEq, and_true, Bool.or_eq_true,
        decide_eq_true_eq] at hempty
      rcases hempty with ⟨rfl, -⟩ | ⟨rfl, -⟩
      · exact absurd rfl (hdouble _)
      · exact absurd rfl (hsingle _)

theorem encodeValue_eq_nil {v : Str} : encodeValue v = [] ↔ v = [] := by
  unfold encodeValue
  split
  next h => simpa using fun hv : v = [] => by simp [hv, needsQuotes] at h
  next => rfl

/-- What is read of a value that was written before a tail. -/
theorem heldValue_eq_iff (v t : Str) : heldValue (encodeValue v) t = v ↔ Harmless v t := by
  simp only [heldValue, encodeValue_eq_nil, Harmless]
  by_cases hv : v = []
  · subst hv
    have hplain : encodeValue [] = [] := rfl
    have hquotes : needsQuotes [] = false := rfl
    by_cases hhash : (strip t).head? = some '#'
    · rw [if_pos ⟨rfl, hhash⟩]
      rcases (strip_head t).1 hhash with h | h <;> simp [h]
    · rw [if_neg (fun h => hhash h.2), hplain, List.nil_append, parse_empty hhash]
      obtain ⟨hhead, hat⟩ := not_or.1 ((strip_head t).not.1 hhash)
      simp [hquotes, hhead, hat]
  · rw [if_neg (fun h => hv h.1), encodeValue]
    cases hquotes : needsQuotes v with
    | true =>
      rw [if_pos rfl, parse_quoted]
      exact iff_of_true rfl (.inl rfl)
    | false => simp [parse_bare hv hquotes, hv]

end EnvFile

end Mtrtk
