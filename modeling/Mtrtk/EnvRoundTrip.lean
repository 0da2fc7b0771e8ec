import Mtrtk.EnvUpdate

/-!
# What is read back from a `.env` file

The writer refuses a line feed and a carriage return, the reader ends a line at other code points
too. A value with one of those is cut, and what is read of its key has no line break in it unless
the line after the cut begins a value in quotes that the old tail ends (`piece_value`).

`readBack_iff` is the round trip, for updates that may hold any code point the writer accepts : the
values come back if and only if the keys are names, none of the values spans two lines and each is
`Harmless` before its tail. A later update of other keys changes nothing of it.
-/

namespace Mtrtk

namespace EnvFile

variable {encoded : List (Str × Str)} {lines : List Str} {key value : Str}

theorem lookup_of_mem {l : List (Str × Str)} (hnodup : (l.map Prod.fst).Nodup) {e : Str × Str}
    (h : e ∈ l) : l.lookup e.1 = some e.2 := by
  induction l with
  | nil => exact absurd h List.not_mem_nil
  | cons d l ih =>
    obtain ⟨hfresh, hnodup⟩ := List.nodup_cons.1 hnodup
    rcases List.mem_cons.1 h with rfl | h
    · exact List.lookup_cons_self
    · have hne : e.1 ≠ d.1 := fun heq => hfresh (heq ▸ List.mem_map_of_mem h)
      rw [List.lookup_cons, beq_false_of_ne hne]
      exact ih hnodup h

theorem mem_of_lookup {l : List (Str × Str)} {k v : Str} (h : l.lookup k = some v) :
    (k, v) ∈ l := by
  obtain ⟨l₁, l₂, rfl, -⟩ := List.lookup_eq_some_iff.1 h
  simp

/-! ## The lines of a text with longer items -/

/-- A line of a text, from a line break or the beginning to the next one or the end. -/
structure Piece (l s : Str) : Prop where
  inside : ∃ pre post, s = pre ++ (l ++ post) ∧
    (∀ c, pre.getLast? = some c → isLineBreak c = true) ∧
    ∀ c, post.head? = some c → isLineBreak c = true
  single : SingleLine l

theorem piece_of_mem_splitlinesFrom (pre : Str) {l line item whole rest : Str} {cr : Bool}
    (hwhole : whole = pre ++ (line ++ item))
    (hpre : ∀ c, pre.getLast? = some c → isLineBreak c = true)
    (hline : SingleLine line) (hcr : cr = true → line = [])
    (h : l ∈ splitlinesFrom line cr (item ++ '\n' :: rest)) :
    Piece l whole ∨ l ∈ splitlinesFrom [] false rest := by
  have hnil : SingleLine [] := fun c hc => absurd hc List.not_mem_nil
  induction item generalizing pre line cr with
  | nil =>
    rw [List.nil_append, splitlinesFrom] at h
    split at h
    next hc => exact .inr (hcr hc.2 ▸ h)
    next =>
      rw [if_pos (by decide), decide_eq_false (by decide)] at h
      refine (List.mem_cons.1 h).imp_left ?_
      rintro rfl
      exact ⟨⟨pre, [], hwhole, hpre, by simp⟩, hline⟩
  | cons c item ih =>
    rw [List.cons_append, splitlinesFrom] at h
    split at h
    next hc =>
      have hempty := hcr hc.2
      subst hempty
      refine ih (pre ++ [c]) (by simp [hwhole]) ?_ hnil (by simp) h
      simp [hc.1, isLineBreak]
    next =>
      split at h
      next hbreak =>
        rcases List.mem_cons.1 h with rfl | h
        · exact .inl ⟨⟨pre, c :: item, hwhole, hpre, by simp [hbreak]⟩, hline⟩
        · refine ih (pre ++ (line ++ [c])) (by simp [hwhole]) ?_ hnil (fun _ => rfl) h
          simp [← List.append_assoc, hbreak]
      next hbreak =>
        refine ih pre (by simp [hwhole]) hpre (hline.append ?_) (by simp) h
        simpa [SingleLine] using hbreak

/-- A line that is read is a line of one of the items. -/
theorem piece_of_mem_splitlines {items : List Str} {l : Str}
    (h : l ∈ splitlines (joinLines items)) : ∃ item ∈ items, Piece l item := by
  rw [joinLines_eq] at h
  induction items with
  | nil => exact absurd h (by simp [splitlines, splitlinesFrom])
  | cons item items ih =>
    rw [List.flatMap_cons, List.append_assoc, List.singleton_append] at h
    rcases piece_of_mem_splitlinesFrom [] rfl (by simp) (by simp [SingleLine]) (by simp) h
      with hpiece | hrest
    · exact ⟨item, by simp, hpiece⟩
    · obtain ⟨item', hmem, hpiece⟩ := ih hrest
      exact ⟨item', by simp [hmem], hpiece⟩

/-- An item of one line is read as it is. -/
theorem Piece.eq_of_singleLine {l s : Str} (h : Piece l s) (hs : SingleLine s) : l = s := by
  obtain ⟨⟨pre, post, rfl, hpre, hpost⟩, -⟩ := h
  have hpre' : pre = [] := by
    rcases pre.eq_nil_or_concat with rfl | ⟨pre, c, rfl⟩
    · rfl
    · exact absurd (hpre c (by simp)) (by simp [hs c (by simp)])
  have hpost' : post = [] := by
    rcases post with _ | ⟨c, post⟩
    · rfl
    · exact absurd (hpost c rfl) (by simp [hs c (by simp)])
  simp [hpre', hpost']

/-! ## What is read of a cut value -/

theorem decodeEscapes_single (s : Str) : decodeEscapes singleEscape s ⊆ s := by
  induction s using decodeEscapes.induct singleEscape with
  | case1 => exact List.Subset.refl _
  | case2 c => exact List.Subset.refl _
  | case3 c d cs e he ih =>
    have hed : e = d := by
      by_cases hc : c = '\\'
      · rw [if_pos hc, singleEscape] at he
        exact (Option.some.inj (Option.ite_none_right_eq_some.1 he).2).symm
      · simp [hc] at he
    rw [decodeEscapes, he, hed]
    exact List.subset_cons_of_subset c (List.cons_subset_cons d ih)
  | case4 c d cs hnone ih =>
    rw [decodeEscapes, hnone]
    exact List.cons_subset_cons c ih

theorem scanQuoted_subset {quote : Char} {esc : Bool} {s body tail : Str}
    (h : scanQuoted quote esc s = some (body, tail)) : body ⊆ s := by
  induction s generalizing esc body with
  | nil => cases esc <;> exact absurd h (by simp [scanQuoted])
  | cons c s ih =>
    have hstep : ∀ {esc'},
        (scanQuoted quote esc' s).map (Prod.map (c :: ·) id) = some (body, tail) →
          body ⊆ c :: s := fun hmap => by
      obtain ⟨m, hm, heq⟩ := Option.map_eq_some_iff.1 hmap
      obtain ⟨rfl, rfl⟩ := Prod.mk.inj heq
      exact List.cons_subset_cons c (ih hm)
    cases esc with
    | true => exact hstep h
    | false =>
      rw [scanQuoted] at h
      split at h
      · obtain ⟨rfl, -⟩ := Prod.mk.inj (Option.some.inj h)
        exact List.nil_subset _
      · exact hstep h

theorem cutComment_subset (s : Str) : (cutComment s).1 ⊆ s := by
  induction s with
  | nil => exact List.nil_subset _
  | cons c s ih =>
    rw [cutComment]
    split
    · exact List.nil_subset _
    · exact List.cons_subset_cons c ih

/-- Only an escape in double quotes is read as what is not there. -/
theorem parseValue_cases (rest : Str) :
    (parseValue rest).1 ⊆ rest ∨ ∃ body,
      rest.dropWhile (fun c => c = ' ' ∨ c = '\t') = '"' :: body ∧
        (scanQuoted '"' false body).isSome = true := by
  have hdrop := (List.dropWhile_suffix (l := rest) fun c => c = ' ' ∨ c = '\t').subset
  have hbare : ∀ s, (parseBare s).1 ⊆ s := fun s =>
    List.Subset.trans (List.rdropWhile_prefix _ _).subset (cutComment_subset s)
  simp only [parseValue]
  split
  next cs heq =>
    cases hscan : scanQuoted '"' false cs with
    | some m => exact .inr ⟨cs, heq, by simp [hscan]⟩
    | none => exact .inl (List.Subset.trans (hbare _) hdrop)
  next cs heq =>
    refine .inl (List.Subset.trans ?_ hdrop)
    rw [heq]
    cases hscan : scanQuoted '\'' false cs with
    | some m =>
      exact List.subset_cons_of_subset _
        (List.Subset.trans (decodeEscapes_single _) (scanQuoted_subset hscan))
    | none => exact hbare _
  next => exact .inl (List.Subset.trans (hbare _) hdrop)

/-- A line break is read only from an escape in double quotes. -/
theorem value_cases {l : Str} {e : EnvEntry} (hl : SingleLine l) (h : parseLine l = some e) :
    SingleLine e.value ∨ ∃ pre c body, l = pre ++ c :: '"' :: body ∧
      (c = '=' ∨ c = ' ' ∨ c = '\t') ∧ (scanQuoted '"' false body).isSome = true := by
  obtain ⟨⟨key, rest⟩, hm, rfl⟩ := Option.map_eq_some_iff.1 h
  obtain ⟨-, pre, rfl⟩ := matchAssign_some hm
  refine (parseValue_cases rest).imp (fun hsub => ?_) ?_
  · exact hl.mono (List.Subset.trans hsub fun c hc => by simp [hc])
  · rintro ⟨body, hbody, hscan⟩
    have hsplit := List.takeWhile_append_dropWhile (p := fun c => c = ' ' ∨ c = '\t') (l := rest)
    rw [hbody] at hsplit
    rcases (rest.takeWhile fun c => c = ' ' ∨ c = '\t').eq_nil_or_concat with hnil | ⟨ts, c, hts⟩
    · refine ⟨pre, '=', body, ?_, .inl rfl, hscan⟩
      rw [← hsplit, hnil, List.nil_append]
    · have hc : c ∈ rest.takeWhile fun c => c = ' ' ∨ c = '\t' := by
        rw [hts]
        simp
      have hblank := List.mem_takeWhile_imp hc
      rw [decide_eq_true_eq] at hblank
      refine ⟨pre ++ '=' :: ts, c, body, ?_, .inr hblank, hscan⟩
      rw [← hsplit, hts]
      simp

theorem quote_mem_of_scanQuoted {quote : Char} {esc : Bool} {s : Str}
    (h : (scanQuoted quote esc s).isSome = true) : quote ∈ s := by
  induction s generalizing esc with
  | nil => cases esc <;> simp [scanQuoted] at h
  | cons c s ih =>
    cases esc with
    | true => exact List.mem_cons_of_mem c (ih (by simpa [scanQuoted] using h))
    | false =>
      by_cases hc : c = quote
      · simp [hc]
      · rw [scanQuoted, if_neg hc, Option.isSome_map] at h
        exact List.mem_cons_of_mem c (ih h)

/-- In an escaped value no quote stands by itself. -/
theorem isPrefix_of_scanQuoted {v s : Str} (h : s <+: v.flatMap escapeChar) :
    scanQuoted '"' false s = none := by
  induction v generalizing s with
  | nil =>
    rw [List.flatMap_nil, List.prefix_nil] at h
    rw [h]
    rfl
  | cons c v ih =>
    rw [List.flatMap_cons] at h
    by_cases hc : c = '\\' ∨ c = '"'
    · rw [escapeChar, if_pos hc, List.cons_append, List.singleton_append] at h
      rcases s with _ | ⟨a, _ | ⟨b, s⟩⟩
      · rfl
      · rw [(List.cons_prefix_cons.1 h).1]
        rfl
      · obtain ⟨ha, h⟩ := List.cons_prefix_cons.1 h
        rw [ha, scanQuoted, if_neg (by decide), decide_eq_true rfl, scanQuoted,
          ih (List.cons_prefix_cons.1 h).2]
        rfl
    · obtain ⟨hbs, hq⟩ := not_or.1 hc
      rw [escapeChar, if_neg hc, List.singleton_append] at h
      rcases s with _ | ⟨a, s⟩
      · rfl
      · obtain ⟨ha, h⟩ := List.cons_prefix_cons.1 h
        rw [ha, scanQuoted, if_neg hq, decide_eq_false hbs, ih h]
        rfl

/-- After a quote that no backslash escapes there is no other. -/
theorem quote_notMem_after {v t a b : Str} (ht : '"' ∉ t)
    (h : v.flatMap escapeChar ++ '"' :: t = a ++ '"' :: b) (ha : a.getLast? ≠ some '\\') :
    '"' ∉ b := by
  induction v generalizing a with
  | nil =>
    rcases a with _ | ⟨c, a⟩
    · exact (List.cons.inj h).2 ▸ ht
    · exact absurd ((List.cons.inj h).2 ▸ ht) (by simp)
  | cons c v ih =>
    have hlast : ∀ {x : Char} {a : Str}, (x :: a).getLast? ≠ some '\\' → a.getLast? ≠ some '\\' :=
      fun {x a} hx hlast => hx (by rw [List.getLast?_cons, hlast]; rfl)
    rw [List.flatMap_cons, List.append_assoc] at h
    by_cases hc : c = '\\' ∨ c = '"'
    · rw [escapeChar, if_pos hc] at h
      rcases a with _ | ⟨x, _ | ⟨y, a⟩⟩
      · exact absurd (List.cons.inj h).1 (by decide)
      · exact absurd ((List.cons.inj h).1 ▸ rfl) ha
      · exact ih (List.cons.inj (List.cons.inj h).2).2 (hlast (hlast ha))
    · rw [escapeChar, if_neg hc] at h
      rcases a with _ | ⟨x, a⟩
      · exact absurd (List.cons.inj h).1 (not_or.1 hc).2
      · exact ih (List.cons.inj h).2 (hlast ha)

theorem subset_escaped (v : Str) : v ⊆ v.flatMap escapeChar := fun c hc =>
  List.mem_flatMap.2 ⟨c, hc, by unfold escapeChar; split <;> simp⟩

theorem quote_notMem_key (hkey : IsKey key) : '"' ∉ key := fun hmem =>
  absurd (hkey.chars _ hmem) (by decide)

/-- A value that spans two lines is in none of them. -/
theorem piece_value {v tail l : Str} {e : EnvEntry} (hkey : IsKey key) (hquote : '"' ∉ tail)
    (hv : ¬SingleLine v) (hl : Piece l (key ++ '=' :: (encodeValue v ++ tail)))
    (he : parseLine l = some e) : SingleLine e.value := by
  refine (value_cases hl.single he).resolve_right ?_
  rintro ⟨a, c, body, rfl, hc, hscan⟩
  obtain ⟨⟨pre, post, hs, -, -⟩, hsingle⟩ := hl
  have hbody := quote_mem_of_scanQuoted hscan
  cases hneeds : needsQuotes v with
  | false =>
    have hne : v ≠ [] := fun h => hv (by simp [h, SingleLine])
    have hplain := (not_needsQuotes hne hneeds).2.2.2
    have hmem : '"' ∈ key ++ '=' :: (encodeValue v ++ tail) := by
      rw [hs]
      simp [hbody]
    rw [encodeValue, hneeds, if_neg (by simp)] at hmem
    rcases List.mem_append.1 hmem with h | h
    · exact quote_notMem_key hkey h
    · rcases List.mem_append.1 ((List.mem_cons.1 h).resolve_left (by decide)) with h | h
      · exact absurd (List.any_eq_false.1 hplain _ h) (by decide)
      · exact hquote h
  | true =>
    rw [encodeValue, hneeds, if_pos rfl, escapeValue_eq] at hs
    have hs' : (key ++ ['=']) ++ '"' :: (v.flatMap escapeChar ++ '"' :: tail) =
        (pre ++ a ++ [c]) ++ '"' :: (body ++ post) := by
      simpa using hs
    -- The quote that opens the value read is the one that opens the value written.
    have hopen : v.flatMap escapeChar ++ '"' :: tail = body ++ post := by
      rcases List.append_eq_append_iff.1 hs' with ⟨m, hm, hrest⟩ | ⟨m, hm, hrest⟩
      · rcases m with _ | ⟨q, m⟩
        · exact (List.cons.inj hrest).2
        · have hlast : m.getLast? ≠ some '\\' := fun h => by
            obtain ⟨m, rfl⟩ := List.getLast?_eq_some_iff.1 h
            have hm' : (pre ++ a) ++ [c] = (key ++ '=' :: q :: m) ++ ['\\'] := by simpa using hm
            have hend : c = '\\' := List.singleton_inj.1 (List.append_inj_right' hm' rfl)
            rcases hc with rfl | rfl | rfl <;> exact absurd hend (by decide)
          obtain ⟨rfl, htail⟩ := List.cons.inj hrest
          exact absurd (List.mem_append_left _ hbody) (quote_notMem_after hquote htail hlast)
      · rcases m with _ | ⟨q, m⟩
        · exact (List.cons.inj hrest).2.symm
        · obtain ⟨rfl, -⟩ := List.cons.inj hrest
          have hmem : '"' ∈ key ++ ['='] := by
            rw [hm]
            simp
          exact absurd ((List.mem_append.1 hmem).resolve_right (by decide)) (quote_notMem_key hkey)
    rcases List.append_eq_append_iff.1 hopen with ⟨m, hm, -⟩ | ⟨m, hm, -⟩
    · refine hv (hsingle.mono (List.Subset.trans (subset_escaped v) fun x hx => ?_))
      rw [hm]
      simp [hx]
    · rw [isPrefix_of_scanQuoted ⟨m, hm.symm⟩] at hscan
      exact Bool.false_ne_true hscan

/-! ## The items of an update -/

theorem tailOf_cons {raw : Str} (h : (lastEntry lines key).isSome = true) :
    tailOf (raw :: lines) key = tailOf lines key := by
  obtain ⟨e, he⟩ := Option.isSome_iff_exists.1 h
  rw [tailOf, tailOf, lastEntry_cons, he]
  rfl

theorem mem_rewriteLines {item : Str} (h : item ∈ rewriteLines encoded lines) :
    (item ∈ lines ∧ ∀ e, parseLine item = some e → encoded.lookup e.key = none) ∨
      ∃ k value, encoded.lookup k = some value ∧ IsKey k ∧ (lastEntry lines k).isSome = true ∧
        item ∈ writtenLines k value (tailOf lines k) := by
  induction lines with
  | nil => exact absurd h List.not_mem_nil
  | cons raw lines ih =>
    have hlater : item ∈ rewriteLines encoded lines →
        (item ∈ raw :: lines ∧ ∀ e, parseLine item = some e → encoded.lookup e.key = none) ∨
          ∃ k value, encoded.lookup k = some value ∧ IsKey k ∧
            (lastEntry (raw :: lines) k).isSome = true ∧
            item ∈ writtenLines k value (tailOf (raw :: lines) k) := fun hmem => by
      refine (ih hmem).imp (And.imp_left (List.mem_cons_of_mem raw)) ?_
      rintro ⟨k, value, hk, hkey, hlast, hitem⟩
      refine ⟨k, value, hk, hkey, ?_, (tailOf_cons hlast).symm ▸ hitem⟩
      rw [lastEntry_cons, Option.isSome_or, hlast]
      rfl
    rw [rewriteLines] at h
    split at h
    next hnone =>
      rcases List.mem_cons.1 h with rfl | h
      · exact .inl ⟨by simp, by simp [hnone]⟩
      · exact hlater h
    next e he =>
      split at h
      next hother =>
        rcases List.mem_cons.1 h with rfl | h
        · exact .inl ⟨by simp, by simpa [he] using hother⟩
        · exact hlater h
      next value hvalue =>
        split at h
        next => exact hlater h
        next hlast =>
          rw [Bool.not_eq_true, Option.isSome_eq_false_iff, Option.isNone_iff_eq_none] at hlast
          rcases List.mem_append.1 h with h | h
          · have hself : lastEntry (raw :: lines) e.key = some e := by
              rw [lastEntry_cons, hlast, lastEntry_some he, if_pos rfl]
              rfl
            refine .inr ⟨e.key, value, hvalue, isKey_of_parseLine he, by simp [hself], ?_⟩
            rw [tailOf, hself]
            exact h
          · exact hlater h

/-- An item is a line of the text that binds another key, or the binding of an updated one. -/
theorem mem_updatedLines {item : Str} (hkeys : ∀ e ∈ encoded, IsKey e.1)
    (hnodup : (encoded.map Prod.fst).Nodup) (h : item ∈ updatedLines encoded lines) :
    (item ∈ lines ∧ ∀ e, parseLine item = some e → encoded.lookup e.key = none) ∨
      ∃ k value, encoded.lookup k = some value ∧ IsKey k ∧
        item ∈ writtenLines k value (tailOf lines k) := by
  rcases List.mem_append.1 h with h | h
  · refine (mem_rewriteLines h).imp_right ?_
    rintro ⟨k, value, hk, hkey, -, hitem⟩
    exact ⟨k, value, hk, hkey, hitem⟩
  · obtain ⟨e, he, rfl⟩ := List.mem_map.1 h
    obtain ⟨he, hlast⟩ := List.mem_filter.1 he
    refine .inr ⟨e.1, e.2, lookup_of_mem hnodup he, hkeys e he, ?_⟩
    rw [tailOf, Option.isNone_iff_eq_none.1 hlast, Option.map_none, Option.getD_none, writtenLines,
      if_neg (fun h => absurd h.2 (by decide)), List.append_nil]
    exact List.mem_singleton.2 rfl

theorem singleLine_writtenLines {tail item : Str} (hkey : IsKey key) (hvalue : SingleLine value)
    (htail : SingleLine tail) (h : item ∈ writtenLines key value tail) : SingleLine item := by
  unfold writtenLines at h
  split at h
  · rcases List.mem_cons.1 h with rfl | h
    · exact htail.mono (strip_subset tail)
    · rw [List.mem_singleton.1 h]
      exact hkey.singleLine_binding (by simp [SingleLine])
  · rw [List.mem_singleton.1 h]
    exact hkey.singleLine_binding (hvalue.append htail)

/-- Values of one line are in one line each. -/
theorem singleLine_updatedLines (hkeys : ∀ e ∈ encoded, IsKey e.1)
    (hnodup : (encoded.map Prod.fst).Nodup) (hvalues : ∀ e ∈ encoded, SingleLine e.2)
    (hlines : ∀ l ∈ lines, SingleLine l) : ∀ l ∈ updatedLines encoded lines, SingleLine l := by
  intro item h
  rcases mem_updatedLines hkeys hnodup h with ⟨hmem, -⟩ | ⟨k, value, hk, hkey, hitem⟩
  · exact hlines item hmem
  · exact singleLine_writtenLines hkey (hvalues _ (mem_of_lookup hk))
      (singleLine_tailOf hlines k) hitem

theorem key_of_writtenLines {tail item : Str} {e : EnvEntry} (hkey : IsKey key)
    (h : item ∈ writtenLines key value tail) (he : parseLine item = some e) : e.key = key := by
  have hbinding : ∀ rest, item = key ++ '=' :: rest → e.key = key := by
    rintro rest rfl
    rw [hkey.parseLine] at he
    exact (Option.some.inj he) ▸ rfl
  unfold writtenLines at h
  split at h
  next hhash =>
    rcases List.mem_cons.1 h with rfl | h
    · obtain ⟨s, hs⟩ := List.head?_eq_some_iff.1 hhash.2
      rw [hs, parseLine_hash] at he
      exact absurd he (by simp)
    · exact hbinding [] (List.mem_singleton.1 h)
  next => exact hbinding _ (List.mem_singleton.1 h)

/-! ## The round trip -/

/-- A dictionary of updates, with values the writer takes. -/
structure EnvUpdates (updates : List (Str × Str)) : Prop where
  nodup : (updates.map Prod.fst).Nodup
  accepted : ∀ e ∈ updates, (writable (String.ofList e.2)).isOk = true

/-- What `update_env` is to write for the updates. -/
def encodedUpdates (updates : List (Str × Str)) : List (Str × Str) :=
  updates.map (Prod.map id encodeValue)

/-- Each value is read after the update, and after a later one. -/
def ReadsBack (text : Str) (updates later : List (Str × Str)) : Prop :=
  ∃ text' text'', updateEnv text updates = .ok text' ∧ updateEnv text' later = .ok text'' ∧
    ∀ e ∈ updates, readEnv text' e.1 = some e.2 ∧ readEnv text'' e.1 = some e.2

section RoundTrip

variable {text : Str} {updates later : List (Str × Str)}

theorem encodeEnv_of_accepted {v : Str} (h : (writable (String.ofList v)).isOk = true) :
    encodeEnv v = .ok (encodeValue v) := by
  unfold encodeEnv
  cases hw : writable (String.ofList v) with
  | ok s => rfl
  | error s => rw [hw] at h; exact absurd h (by simp [Except.isOk, Except.toBool])

theorem EnvUpdates.updateEnv_eq (h : EnvUpdates updates) (text : Str) :
    updateEnv text updates =
      .ok (joinLines (updatedLines (encodedUpdates updates) (splitlines text))) := by
  have hmap : (updates.mapM fun e => do return (e.1, ← encodeEnv e.2)) =
      (.ok (encodedUpdates updates) : Except String _) := by
    have haccepted := h.accepted
    clear h
    induction updates with
    | nil => rfl
    | cons e updates ih =>
      obtain ⟨he, hrest⟩ := List.forall_mem_cons.1 haccepted
      rw [List.mapM_cons, encodeEnv_of_accepted he, ih hrest]
      rfl
  rw [updateEnv, hmap]
  rfl

theorem keys_encoded (updates : List (Str × Str)) :
    (encodedUpdates updates).map Prod.fst = updates.map Prod.fst := by
  simp [encodedUpdates]

theorem lookup_encoded (updates : List (Str × Str)) (key : Str) :
    (encodedUpdates updates).lookup key = (updates.lookup key).map encodeValue := by
  induction updates with
  | nil => rfl
  | cons e updates ih =>
    rw [encodedUpdates, List.map_cons, List.lookup_cons, List.lookup_cons]
    cases hk : key == e.1 with
    | true => simp [hk]
    | false => simpa [hk, encodedUpdates] using ih

theorem isKey_encoded (h : ∀ e ∈ updates, IsKey e.1) :
    ∀ e ∈ encodedUpdates updates, IsKey e.1 := by
  intro e he
  obtain ⟨d, hd, rfl⟩ := List.mem_map.1 he
  exact h d hd

theorem singleLine_encoded (h : ∀ e ∈ updates, SingleLine e.2) :
    ∀ e ∈ encodedUpdates updates, SingleLine e.2 := by
  intro e he
  obtain ⟨d, hd, rfl⟩ := List.mem_map.1 he
  exact singleLine_encodeValue (h d hd)

theorem isKey_of_readEnv {v : Str} (h : readEnv text key = some v) : IsKey key := by
  obtain ⟨e, he, -⟩ := Option.map_eq_some_iff.1 h
  obtain ⟨rfl, raw, -, hraw⟩ := mem_of_lastEntry he
  exact isKey_of_parseLine hraw

/-- What is read back has no line break that the writer did not see. -/
theorem EnvUpdates.singleLine_of_read (h : EnvUpdates updates) (hkeys : ∀ e ∈ updates, IsKey e.1)
    (hlines : ∀ l ∈ lines, SingleLine l)
    (hquote : ∀ e ∈ updates, SingleLine e.2 ∨ '"' ∉ tailOf lines e.1) {e : Str × Str}
    (he : e ∈ updates)
    (hread : readEnv (joinLines (updatedLines (encodedUpdates updates) lines)) e.1 = some e.2) :
    SingleLine e.2 := by
  by_contra hspans
  obtain ⟨entry, hentry, hvalue⟩ := Option.map_eq_some_iff.1 hread
  obtain ⟨hkey, l, hl, hparse⟩ := mem_of_lastEntry hentry
  obtain ⟨item, hitem, hpiece⟩ := piece_of_mem_splitlines hl
  have hlookup := lookup_of_mem h.nodup he
  rcases mem_updatedLines (isKey_encoded hkeys) (keys_encoded updates ▸ h.nodup) hitem with
    ⟨hraw, hother⟩ | ⟨k, value, hk, hkkey, hwritten⟩
  · obtain rfl := hpiece.eq_of_singleLine (hlines _ hraw)
    have := hother entry hparse
    rw [hkey, lookup_encoded, hlookup] at this
    simp at this
  · rw [lookup_encoded, Option.map_eq_some_iff] at hk
    obtain ⟨v, hv, rfl⟩ := hk
    by_cases hsingle : SingleLine v
    · -- The binding of `k` is one line, so `k` is the key that is read.
      obtain rfl := hpiece.eq_of_singleLine (singleLine_writtenLines hkkey
        (singleLine_encodeValue hsingle) (singleLine_tailOf hlines k) hwritten)
      rw [← key_of_writtenLines hkkey hwritten hparse, hkey, hlookup] at hv
      exact hspans (Option.some.inj hv ▸ hsingle)
    · have hne : ¬(encodeValue v = [] ∧ (strip (tailOf lines k)).head? = some '#') := fun h =>
        hsingle (by simp [encodeValue_eq_nil.1 h.1, SingleLine])
      rw [writtenLines, if_neg hne, List.mem_singleton] at hwritten
      subst hwritten
      have hnoquote := (hquote _ (mem_of_lookup hv)).resolve_left hsingle
      exact hspans (hvalue ▸ piece_value hkkey hnoquote hsingle hpiece hparse)

/-- The updates that are read back, and stay so : names for keys, values of one line, harmless
before the tails of the old ones. -/
theorem readBack_iff (hupdates : EnvUpdates updates) (hlater : EnvUpdates later)
    (hothers : ∀ e ∈ later, e.1 ∉ updates.map Prod.fst) :
    ((∀ e ∈ updates, IsKey e.1 ∧ SingleLine e.2 ∧
        Harmless e.2 (tailOf (splitlines text) e.1)) →
      (∀ e ∈ later, IsKey e.1 ∧ SingleLine e.2) → ReadsBack text updates later) ∧
    (ReadsBack text updates later →
      (∀ e ∈ updates, SingleLine e.2 ∨ '"' ∉ tailOf (splitlines text) e.1) →
      ∀ e ∈ updates, IsKey e.1 ∧ SingleLine e.2 ∧
        Harmless e.2 (tailOf (splitlines text) e.1)) := by
  have hsplit := singleLine_splitlines text
  have hnodup := (keys_encoded updates).symm ▸ hupdates.nodup
  have hnodup' := (keys_encoded later).symm ▸ hlater.nodup
  have hheld : (∀ e ∈ updates, IsKey e.1 ∧ SingleLine e.2) → ∀ e ∈ updates,
      readEnv (joinLines (updatedLines (encodedUpdates updates) (splitlines text))) e.1 =
        some (heldValue (encodeValue e.2) (tailOf (splitlines text) e.1)) := fun h e he => by
    have hkeys := isKey_encoded fun e he => (h e he).1
    have hvalues := singleLine_encoded fun e he => (h e he).2
    have hlookup : (encodedUpdates updates).lookup e.1 = some (encodeValue e.2) := by
      rw [lookup_encoded, lookup_of_mem hupdates.nodup he]
      rfl
    rw [readEnv, splitlines_join (singleLine_updatedLines hkeys hnodup hvalues hsplit),
      lastEntry_updatedLines hkeys hnodup hlookup]
  constructor
  · intro h hlines
    refine ⟨_, _, hupdates.updateEnv_eq text, hlater.updateEnv_eq _, fun e he => ?_⟩
    have hfirst :
        readEnv (joinLines (updatedLines (encodedUpdates updates) (splitlines text))) e.1 =
          some e.2 := by
      rw [hheld (fun e he => ⟨(h e he).1, (h e he).2.1⟩) e he,
        (heldValue_eq_iff _ _).2 (h e he).2.2]
    refine ⟨hfirst, ?_⟩
    have hkeys := isKey_encoded fun e he => (hlines e he).1
    have hvalues := singleLine_encoded fun e he => (hlines e he).2
    have hother : (encodedUpdates later).lookup e.1 = none := by
      refine List.lookup_eq_none_iff.2 fun d hd => ?_
      have hmem : d.1 ∈ later.map Prod.fst := keys_encoded later ▸ List.mem_map_of_mem hd
      obtain ⟨d', hd', hkey⟩ := List.mem_map.1 hmem
      have hne : e.1 ≠ d.1 := fun heq => hothers d' hd' <| by
        rw [hkey, ← heq]
        exact List.mem_map_of_mem he
      simpa using hne
    rw [readEnv, splitlines_join (singleLine_updatedLines hkeys hnodup' hvalues
      (singleLine_splitlines _)), lastEntry_updatedLines_other hkeys hnodup' hother]
    exact hfirst
  · rintro ⟨text', text'', hupdate, -, hread⟩ hquote
    rw [hupdates.updateEnv_eq] at hupdate
    obtain rfl := Except.ok.inj hupdate
    have hkeys : ∀ e ∈ updates, IsKey e.1 := fun e he => isKey_of_readEnv (hread e he).1
    have hsingle : ∀ e ∈ updates, SingleLine e.2 := fun e he =>
      hupdates.singleLine_of_read hkeys hsplit hquote he (hread e he).1
    refine fun e he => ⟨hkeys e he, hsingle e he, (heldValue_eq_iff _ _).1 ?_⟩
    have := hheld (fun e he => ⟨hkeys e he, hsingle e he⟩) e he
    rw [(hread e he).1] at this
    exact (Option.some.inj this).symm

/-- A bare value before a comment, and another key after it. -/
theorem readBack_iff_comment :
    ReadsBack "A=\"a\"x\nK=1 # old\n".toList [("K".toList, "a b".toList)]
      [("A".toList, "2".toList)] :=
  (readBack_iff ⟨by decide, by decide⟩ ⟨by decide, by decide⟩ (by decide)).1
    (List.forall_mem_singleton.2
      ⟨⟨rfl, by simp [isKeyChar, isKeyStart]⟩, by simp [SingleLine, isLineBreak],
        Or.inr (Or.inr (Or.inl (by decide)))⟩)
    (List.forall_mem_singleton.2
      ⟨⟨rfl, by simp [isKeyChar, isKeyStart]⟩, by simp [SingleLine, isLineBreak]⟩)

end RoundTrip

/-- Neither a line separator in the value, nor what an old value in quotes left behind it, is
looked at by the writer. -/
theorem updates_lost :
    ¬ReadsBack [] [("K".toList, "a\u2028b".toList)] [] ∧
      ¬ReadsBack "K=\"a\"x\n".toList [("K".toList, "b".toList)] [] := by
  constructor
  · rintro ⟨text', text'', hupdate, -, hread⟩
    rw [EnvUpdates.updateEnv_eq ⟨by decide, by decide⟩] at hupdate
    obtain rfl := Except.ok.inj hupdate
    exact absurd (hread _ List.mem_cons_self).1 (by decide)
  · rintro ⟨text', text'', hupdate, -, hread⟩
    rw [EnvUpdates.updateEnv_eq ⟨by decide, by decide⟩] at hupdate
    obtain rfl := Except.ok.inj hupdate
    exact absurd (hread _ List.mem_cons_self).1 (by decide)

end EnvFile

end Mtrtk
