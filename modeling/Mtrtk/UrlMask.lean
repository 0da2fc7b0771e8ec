import Mtrtk.Backup

/-!
# Which values `_mask_url` changes

`HasCredentials` says when a value is a URL with credentials, from the form of URLs alone : it has
no blank, and a password stands in its authority, or a credential among its query parameters.

`_mask_url` goes by less (`TakenForUrl`) : where a colon comes before an `@`, what is between is
taken for a password, in prose as well. What it does not take for credentials it leaves as it is
(`maskUrl_eq_self`), whatever else `urlsplit` makes of it.
-/

namespace Mtrtk

open EnvFile

namespace Backup

/-! ## URLs with credentials -/

/-- A scheme with its `://`. -/
def IsScheme (s : Str) : Prop :=
  ∃ scheme, s = scheme ++ schemeMark ∧ scheme.head?.any isLetter ∧ scheme.all isSchemeChar

/-- The authority of a URL, with a user and a password before the host. -/
structure UserPassword (value : Str) : Prop where
  parts : ∃ scheme user password host rest,
    value = scheme ++ (user ++ ':' :: password ++ '@' :: host ++ rest) ∧
    -- a correction source may be written without a scheme
    (scheme = [] ∨ IsScheme scheme) ∧
    (∀ c ∈ user ++ password ++ host, isNetloc c = true) ∧ host ≠ [] ∧
    rest.head?.all fun c => !isNetloc c

/-- A query parameter that is named like a credential, and not empty. -/
structure QueryCredential (value : Str) : Prop where
  parts : ∃ scheme before mark name credential rest,
    value = scheme ++ (before ++ mark :: name ++ '=' :: credential ++ rest) ∧
    IsScheme scheme ∧ '#' ∉ before ∧ (mark = '?' ∨ mark = '&' ∧ '?' ∈ before) ∧
    (∀ c ∈ name, c ∉ ['=', '&', '#']) ∧
    (queryWords.any fun word => occursIn word (name.map foldChar)) = true ∧
    credential ≠ [] ∧ ∀ c ∈ credential, c ∉ ['&', '#']

/-- A URL with credentials. -/
structure HasCredentials (value : Str) : Prop where
  noBlank : ∀ c ∈ value, isWhite c = false
  credential : UserPassword value ∨ QueryCredential value

/-- What is taken for a URL with credentials : a colon that comes before an `@`, behind the scheme
where there is one, or in what has `://` a query parameter that is named like a credential. -/
def TakenForUrl (value : Str) : Prop :=
  [':', '@'].Sublist (value.drop (schemeAt value).length) ∨
    occursIn schemeMark value = true ∧ ∃ s, s <:+ value ∧ ∃ name credential,
      queryAt s = some (name, credential) ∧ credential ≠ []

/-! ## The password -/

theorem eq_of_cutLast {x : Char} {s a b : Str} (h : cutLast x s = some (a, b)) :
    s = a ++ x :: b := by
  obtain ⟨⟨c, d⟩, hcut, hparts⟩ := Option.map_eq_some_iff.1 h
  obtain ⟨rfl, rfl⟩ := Prod.mk.inj hparts
  simpa using congrArg List.reverse (eq_of_cut hcut)

theorem sublist_colonAt (a b c : Str) : [':', '@'].Sublist (a ++ ':' :: b ++ '@' :: c) := by
  simp

theorem sublist_of_userinfo {netloc : Str} (h : (userinfo netloc).isSome) :
    [':', '@'].Sublist netloc := by
  unfold userinfo at h
  split at h
  · cases h
  · next info hostport hlast =>
    obtain ⟨⟨user, password, host⟩, hparts⟩ := Option.isSome_iff_exists.1 h
    obtain ⟨⟨user, password⟩, hcut, -⟩ := Option.map_eq_some_iff.1 hparts
    rw [eq_of_cutLast hlast, eq_of_cut hcut]
    exact sublist_colonAt _ _ _

/-- A scheme is read the same way without what follows an `@` behind it. -/
theorem schemeAt_append (head tail : Str) : schemeAt (head ++ '@' :: tail) = schemeAt head := by
  have hscheme : (head ++ '@' :: tail).takeWhile isSchemeChar = head.takeWhile isSchemeChar := by
    rw [List.takeWhile_append]
    split
    · next hall =>
      have hat : isSchemeChar '@' = false := by decide
      simp [hat, (List.takeWhile_prefix isSchemeChar).eq_of_length hall]
    · rfl
  have hmark : ∀ s : Str, schemeMark.isPrefixOf (s ++ '@' :: tail) = schemeMark.isPrefixOf s := by
    rintro (_ | ⟨a, _ | ⟨b, _ | ⟨c, s⟩⟩⟩) <;> simp [schemeMark, List.isPrefixOf]
  simp only [schemeAt, hscheme]
  rw [List.drop_append_of_le_length (List.takeWhile_prefix _).length_le, hmark]

/-- What is read blindly has a colon before an `@`. -/
theorem sublist_of_splitBlindly {value : Str} (h : (splitBlindly value).isSome) :
    [':', '@'].Sublist (value.drop (schemeAt value).length) := by
  unfold splitBlindly at h
  split at h
  · cases h
  · next head tail hlast =>
    obtain ⟨_, hparts⟩ := Option.isSome_iff_exists.1 h
    obtain ⟨⟨user, password⟩, hcut, -⟩ := Option.map_eq_some_iff.1 hparts
    have hbehind := eq_of_cut hcut
    have hle : (schemeAt head).length ≤ head.length := by
      by_contra hgt
      rw [List.drop_eq_nil_of_le (by omega)] at hbehind
      simp at hbehind
    rw [eq_of_cutLast hlast, schemeAt_append, List.drop_append_of_le_length hle, hbehind]
    exact sublist_colonAt _ _ _

/-! ### The netloc -/

theorem splitNetloc_sublist (url : Str) : (splitNetloc url).1.Sublist (url.drop 2) := by
  unfold splitNetloc
  split
  · exact (List.takeWhile_prefix _).sublist
  · exact List.nil_sublist _

theorem splitScheme_suffix (url : Str) : (splitScheme url).2 <:+ url := by
  unfold splitScheme
  split
  · exact List.suffix_rfl
  · next scheme rest hcut =>
    split
    · exact ⟨scheme ++ [':'], by simp [eq_of_cut hcut]⟩
    · exact List.suffix_rfl

theorem isSchemeChar_spec {c : Char} (h : isSchemeChar c = true) :
    ¬c.toNat ≤ 0x20 ∧ isKeptInUrl c = true ∧ c ≠ ':' := by
  have hgt : ¬c.toNat ≤ 0x20 := by
    simp only [isSchemeChar, isKeyChar, isKeyStart, Bool.or_eq_true, Bool.and_eq_true,
      decide_eq_true_eq] at h
    obtain ((⟨(h | rfl) | h, -⟩ | rfl) | rfl) | rfl := h
    · omega
    · decide
    · omega
    · decide
    · decide
    · decide
  have hkept : isKeptInUrl c = true := by
    simp only [isKeptInUrl, decide_eq_true_eq, List.mem_cons, List.not_mem_nil, or_false]
    rintro (rfl | rfl | rfl)
    · exact hgt (by decide)
    · exact hgt (by decide)
    · exact hgt (by decide)
  refine ⟨hgt, hkept, ?_⟩
  rintro rfl
  exact absurd h (by decide)

section Netloc

variable [UrlParse] {url scheme rest : Str} {parts : SplitResult}

/-- The netloc is cut out of what is behind the scheme. -/
theorem netloc_of_urlsplit (h : urlsplit url = some parts) : parts.netloc.Sublist
    ((splitScheme ((url.dropWhile (·.toNat ≤ 0x20)).filter isKeptInUrl)).2.drop 2) := by
  have hsublist := splitNetloc_sublist
    (splitScheme ((url.dropWhile (·.toNat ≤ 0x20)).filter isKeptInUrl)).2
  simp only [urlsplit] at h
  obtain ⟨-, h⟩ := Option.ite_none_left_eq_some.1 h
  obtain rfl := Option.some.inj h
  exact hsublist

theorem netloc_sublist (h : urlsplit url = some parts) : parts.netloc.Sublist url :=
  calc
    parts.netloc.Sublist
        ((splitScheme ((url.dropWhile (·.toNat ≤ 0x20)).filter isKeptInUrl)).2.drop 2) :=
      netloc_of_urlsplit h
    List.Sublist _ ((url.dropWhile (·.toNat ≤ 0x20)).filter isKeptInUrl) :=
      (List.drop_sublist 2 _).trans (splitScheme_suffix _).sublist
    List.Sublist _ url := List.filter_sublist.trans (List.dropWhile_suffix _).sublist

/-- Behind a scheme it is cut out of the rest. -/
theorem netloc_sublist_of_scheme (hhead : scheme.head?.any isLetter = true)
    (hchars : ∀ c ∈ scheme, isSchemeChar c = true)
    (h : urlsplit (scheme ++ schemeMark ++ rest) = some parts) : parts.netloc.Sublist rest := by
  have hclean : ((scheme ++ schemeMark ++ rest).dropWhile (·.toNat ≤ 0x20)).filter isKeptInUrl =
      scheme ++ ':' :: '/' :: '/' :: rest.filter isKeptInUrl := by
    obtain ⟨c, cs, rfl⟩ : ∃ c cs, scheme = c :: cs := List.exists_cons_of_ne_nil (by
      rintro rfl
      cases hhead)
    have hkept : (c :: cs).filter isKeptInUrl = c :: cs :=
      List.filter_eq_self.2 fun d hd => (isSchemeChar_spec (hchars d hd)).2.1
    rw [List.append_assoc, List.cons_append, List.dropWhile_cons_of_neg (by
      simpa using (isSchemeChar_spec (hchars c List.mem_cons_self)).1), ← List.cons_append,
      List.filter_append, hkept]
    rfl
  have hcut : splitScheme (scheme ++ ':' :: '/' :: '/' :: rest.filter isKeptInUrl) =
      (lower scheme, '/' :: '/' :: rest.filter isKeptInUrl) := by
    have hcolon : ':' ∉ scheme := fun hmem => (isSchemeChar_spec (hchars _ hmem)).2.2 rfl
    rw [splitScheme, cut_append hcolon]
    exact if_pos ⟨hhead, List.all_eq_true.2 hchars⟩
  have hsublist := netloc_of_urlsplit h
  rw [hclean, hcut] at hsublist
  exact hsublist.trans List.filter_sublist

/-- What `urlsplit` reads a user and a password in has a colon before an `@`. -/
theorem sublist_of_splitUrl {value : Str} {schemeless : Bool}
    (h : splitUrl value = some (parts, schemeless)) (hinfo : (userinfo parts.netloc).isSome) :
    [':', '@'].Sublist (value.drop (schemeAt value).length) := by
  have hnetloc := sublist_of_userinfo hinfo
  unfold splitUrl at h
  split at h
  · next hmark =>
    obtain ⟨parts, hsplit, hparts⟩ := Option.map_eq_some_iff.1 h
    obtain ⟨rfl, -⟩ := Prod.mk.inj hparts
    refine hnetloc.trans ?_
    by_cases hscheme : (value.takeWhile isSchemeChar).head?.any isLetter ∧
        schemeMark.isPrefixOf (value.drop (value.takeWhile isSchemeChar).length)
    · obtain ⟨rest, hrest⟩ := List.isPrefixOf_iff_prefix.1 hscheme.2
      have hvalue : value = value.takeWhile isSchemeChar ++ schemeMark ++ rest := by
        rw [List.append_assoc, hrest]
        exact (List.prefix_iff_eq_append.1 (List.takeWhile_prefix _)).symm
      have hat : schemeAt value = value.takeWhile isSchemeChar ++ schemeMark := if_pos hscheme
      have hdrop : value.drop (schemeAt value).length = rest := by
        rw [hat]
        nth_rewrite 2 [hvalue]
        exact List.drop_left
      rw [hdrop]
      rw [hvalue] at hsplit
      exact netloc_sublist_of_scheme hscheme.1 (fun _ => List.mem_takeWhile_imp) hsplit
    · have hnone : schemeAt value = [] := if_neg hscheme
      rw [hnone]
      exact netloc_sublist hsplit
  · next hmark =>
    obtain ⟨parts, hsplit, hparts⟩ := Option.map_eq_some_iff.1 h
    obtain ⟨rfl, -⟩ := Prod.mk.inj hparts
    have hnone : schemeAt value = [] := if_neg fun hscheme => hmark (List.any_eq_true.2
      ⟨_, (List.mem_tails _ _).2 (List.drop_suffix _ value), hscheme.2⟩)
    rw [hnone]
    have hchars : ∀ c ∈ "ntrip".toList, isSchemeChar c = true := List.all_eq_true.1 (by decide)
    exact hnetloc.trans (netloc_sublist_of_scheme (by decide) hchars hsplit)

end Netloc

/-! ## What is left as it is -/

/-- The name of a parameter is where it is read. -/
theorem prefix_of_queryAt {s name credential : Str} (h : queryAt s = some (name, credential)) :
    ∃ c cs rest, name = c :: cs ∧ s = c :: cs ++ rest := by
  unfold queryAt at h
  split at h
  · cases h
  · next c cs =>
    simp only at h
    split at h
    · next rest hdrop =>
      obtain ⟨-, h⟩ := Option.ite_none_right_eq_some.1 h
      obtain ⟨rfl, -⟩ := Prod.mk.inj (Option.some.inj h)
      refine ⟨c, _, rest, by rw [List.cons_append], ?_⟩
      have hprefix := List.takeWhile_prefix (l := cs) fun d => d ∉ ['=', '&', '#']
      rw [List.cons_append, List.append_assoc, List.singleton_append, ← hdrop,
        List.prefix_iff_eq_append.1 hprefix]
    · cases h

/-- A parameter is masked where it is, and what is empty is left. -/
theorem maskQueryFrom_eq_drop {s : Str}
    (h : ∀ t, t <:+ s → ∀ name credential, queryAt t = some (name, credential) → credential = [])
    (skip : ℕ) : maskQueryFrom skip s = s.drop skip := by
  induction s generalizing skip with
  | nil => simp [maskQueryFrom]
  | cons c cs ih =>
    have htail := ih fun t ht => h t (ht.trans (List.suffix_cons c cs))
    cases skip with
    | succ skip => exact htail skip
    | zero =>
      rw [maskQueryFrom]
      split
      · next name credential hat =>
        obtain rfl := h _ List.suffix_rfl name credential hat
        obtain ⟨d, ds, rest, rfl, hsplit⟩ := prefix_of_queryAt hat
        obtain ⟨rfl, rfl⟩ := List.cons.inj hsplit
        rw [htail]
        simp
      · rw [htail 0]
        rfl

theorem not_takenForUrl_mask : ¬TakenForUrl mask := by
  rintro (h | ⟨h, -⟩)
  · exact absurd h (by decide)
  · exact absurd h (by decide)

section Mask

variable [UrlParse] {value : Str}

theorem maskUrlPassword_eq_self
    (h : ¬[':', '@'].Sublist (value.drop (schemeAt value).length)) :
    maskUrlPassword value = value := by
  have hblind : maskBlindly value = value := by
    unfold maskBlindly
    split
    · rfl
    · next hsplit => exact absurd (sublist_of_splitBlindly (by rw [hsplit]; rfl)) h
  unfold maskUrlPassword
  split
  · rfl
  · split
    · exact hblind
    · next parts schemeless hsplit =>
      split
      · exact hblind
      · next hinfo =>
        refine absurd (sublist_of_splitUrl hsplit ?_) h
        split at hinfo
        · cases hinfo
        · rw [hinfo]
          rfl

/-- What is not taken for credentials is left as it is. -/
theorem maskUrl_eq_self (h : ¬TakenForUrl value) : maskUrl value = value := by
  obtain ⟨hpassword, hquery⟩ := not_or.1 h
  rw [maskUrl, maskUrlPassword_eq_self hpassword]
  split
  · next hmark =>
    refine maskQueryFrom_eq_drop (fun t ht name credential hat => ?_) 0
    by_contra hne
    exact hquery ⟨hmark, t, ht, name, credential, hat, hne⟩
  · rfl

end Mask

/-! ## On one line -/

section OneLine

variable {s url : Str} {parts : SplitResult}

theorem singleLine_cons {c : Char} (hc : isLineBreak c = false) (hs : SingleLine s) :
    SingleLine (c :: s) :=
  List.forall_mem_cons.2 ⟨hc, hs⟩

theorem singleLine_lower (h : SingleLine s) : SingleLine (lower s) := by
  have hascii : ∀ n < 26, isLineBreak (Char.ofNat (n + 0x61)) = false := by decide
  have hlatin : ∀ n < 31, isLineBreak (Char.ofNat (n + 0xE0)) = false := by decide
  intro c hc
  obtain ⟨d, hd, rfl⟩ := List.mem_map.1 hc
  unfold lowerChar
  simp only
  split
  · next hcase =>
    obtain ⟨hle, hge⟩ | ⟨hle, hge, -⟩ := hcase
    · simpa [show d.toNat - 0x41 + 0x61 = d.toNat + 32 by omega] using
        hascii (d.toNat - 0x41) (by omega)
    · simpa [show d.toNat - 0xC0 + 0xE0 = d.toNat + 32 by omega] using
        hlatin (d.toNat - 0xC0) (by omega)
  · exact h d hd

theorem singleLine_cut {c : Char} {a b : Str} (hs : SingleLine s) (h : cut c s = some (a, b)) :
    SingleLine a ∧ SingleLine b := by
  rw [eq_of_cut h] at hs
  exact ⟨hs.mono (List.subset_append_left _ _), hs.mono fun d hd => by simp [hd]⟩

theorem singleLine_cutLast {c : Char} {a b : Str} (hs : SingleLine s)
    (h : cutLast c s = some (a, b)) : SingleLine a ∧ SingleLine b := by
  rw [eq_of_cutLast h] at hs
  exact ⟨hs.mono (List.subset_append_left _ _), hs.mono fun d hd => by simp [hd]⟩

/-- The two parts of a cut, or the whole. -/
theorem singleLine_cut_getD (c : Char) (hs : SingleLine s) :
    SingleLine ((cut c s).getD (s, [])).1 ∧ SingleLine ((cut c s).getD (s, [])).2 := by
  rcases hcut : cut c s with _ | ⟨a, b⟩
  · exact ⟨hs, nofun⟩
  · exact singleLine_cut hs hcut

theorem singleLine_schemeAt (h : SingleLine s) : SingleLine (schemeAt s) := by
  unfold schemeAt
  simp only
  split
  · exact (h.mono (List.takeWhile_prefix _).subset).append (by decide)
  · exact nofun

theorem singleLine_splitScheme (h : SingleLine url) :
    SingleLine (splitScheme url).1 ∧ SingleLine (splitScheme url).2 := by
  unfold splitScheme
  split
  · exact ⟨nofun, h⟩
  · next hcut =>
    obtain ⟨hscheme, hrest⟩ := singleLine_cut h hcut
    split
    · exact ⟨singleLine_lower hscheme, hrest⟩
    · exact ⟨nofun, h⟩

theorem singleLine_splitNetloc (h : SingleLine url) :
    SingleLine (splitNetloc url).1 ∧ SingleLine (splitNetloc url).2 := by
  unfold splitNetloc
  split
  · have hrest : SingleLine (url.drop 2) := h.mono (List.drop_suffix _ _).subset
    exact ⟨hrest.mono (List.takeWhile_prefix _).subset, hrest.mono (List.dropWhile_suffix _).subset⟩
  · exact ⟨nofun, h⟩

/-- The parts of a URL are on one line. -/
structure OnOneLine (parts : SplitResult) : Prop where
  scheme : SingleLine parts.scheme
  netloc : SingleLine parts.netloc
  path : SingleLine parts.path
  query : SingleLine parts.query
  fragment : SingleLine parts.fragment

theorem onOneLine_urlsplit [UrlParse] (h : SingleLine url) (hsplit : urlsplit url = some parts) :
    OnOneLine parts := by
  have hclean : SingleLine ((url.dropWhile (·.toNat ≤ 0x20)).filter isKeptInUrl) :=
    (h.mono (List.dropWhile_suffix _).subset).mono (List.filter_subset_self _)
  obtain ⟨hscheme, hbehind⟩ := singleLine_splitScheme hclean
  obtain ⟨hnetloc, hrest⟩ := singleLine_splitNetloc hbehind
  simp only [urlsplit] at hsplit
  obtain ⟨-, hsplit⟩ := Option.ite_none_left_eq_some.1 hsplit
  obtain rfl := Option.some.inj hsplit
  obtain ⟨hurl, hfragment⟩ := singleLine_cut_getD '#' hrest
  obtain ⟨hpath, hquery⟩ := singleLine_cut_getD '?' hurl
  exact ⟨hscheme, hnetloc, hpath, hquery, hfragment⟩

theorem singleLine_urlunsplit (h : OnOneLine parts) : SingleLine (urlunsplit parts) := by
  have hpath : SingleLine (if parts.path.head?.all (· = '/') then parts.path
      else '/' :: parts.path) := by
    split
    · exact h.path
    · exact singleLine_cons (by decide) h.path
  have hurl := singleLine_cons (c := '/') (by decide)
    (singleLine_cons (c := '/') (by decide) (h.netloc.append hpath))
  have hscheme : ∀ {t : Str}, SingleLine t →
      SingleLine (if parts.scheme = [] then t else parts.scheme ++ ':' :: t) := fun ht => by
    split
    · exact ht
    · exact h.scheme.append (singleLine_cons (by decide) ht)
  have hquery : ∀ {t : Str}, SingleLine t →
      SingleLine (if parts.query = [] then t else t ++ '?' :: parts.query) := fun ht => by
    split
    · exact ht
    · exact ht.append (singleLine_cons (by decide) h.query)
  have hfragment : ∀ {t : Str}, SingleLine t →
      SingleLine (if parts.fragment = [] then t else t ++ '#' :: parts.fragment) := fun ht => by
    split
    · exact ht
    · exact ht.append (singleLine_cons (by decide) h.fragment)
  exact hfragment (hquery (hscheme hurl))

theorem maskQueryFrom_subset (skip : ℕ) (s : Str) : maskQueryFrom skip s ⊆ s ++ mask := by
  induction s generalizing skip with
  | nil => simp [maskQueryFrom]
  | cons c cs ih =>
    have htail : cs ++ mask ⊆ c :: cs ++ mask := fun d hd => List.mem_cons_of_mem c hd
    cases skip with
    | succ skip => exact List.Subset.trans (ih skip) htail
    | zero =>
      rw [maskQueryFrom]
      split
      · next name credential hat =>
        obtain ⟨d, ds, rest, rfl, hsplit⟩ := prefix_of_queryAt hat
        have hname : d :: ds ⊆ c :: cs ++ mask := by
          rw [hsplit, List.append_assoc]
          exact List.subset_append_left _ _
        refine List.append_subset.2 ⟨List.append_subset.2 ⟨hname, ?_⟩,
          List.Subset.trans (ih _) htail⟩
        split
        · exact List.nil_subset _
        · exact List.subset_append_right _ _
      · exact List.cons_subset.2 ⟨by simp, List.Subset.trans (ih 0) htail⟩

variable [UrlParse] {value : Str}

theorem singleLine_maskUrlPassword (h : SingleLine value) :
    SingleLine (maskUrlPassword value) := by
  have hmask : SingleLine mask := by decide
  have hcolon : isLineBreak ':' = false := by decide
  have hat : isLineBreak '@' = false := by decide
  have hblind : SingleLine (maskBlindly value) := by
    unfold maskBlindly
    split
    · exact h
    · next before user password tail hsplit =>
      unfold splitBlindly at hsplit
      split at hsplit
      · cases hsplit
      · next head tail' hlast =>
        obtain ⟨⟨u, p⟩, hcut, hparts⟩ := Option.map_eq_some_iff.1 hsplit
        obtain ⟨rfl, rfl, rfl, rfl⟩ : schemeAt head = before ∧ u = user ∧ p = password ∧
            tail' = tail := by simpa using hparts
        obtain ⟨hhead, htail⟩ := singleLine_cutLast h hlast
        have huser := (singleLine_cut (hhead.mono (List.drop_suffix _ _).subset) hcut).1
        exact (((singleLine_schemeAt hhead).append huser).append
          (singleLine_cons hcolon hmask)).append (singleLine_cons hat htail)
  have hsplit : ∀ {parts schemeless}, splitUrl value = some (parts, schemeless) →
      OnOneLine parts := fun {parts schemeless} hsplit => by
    unfold splitUrl at hsplit
    split at hsplit
    · obtain ⟨parts', hsplit', hparts⟩ := Option.map_eq_some_iff.1 hsplit
      obtain ⟨rfl, -⟩ := Prod.mk.inj hparts
      exact onOneLine_urlsplit h hsplit'
    · obtain ⟨parts', hsplit', hparts⟩ := Option.map_eq_some_iff.1 hsplit
      obtain ⟨rfl, -⟩ := Prod.mk.inj hparts
      exact onOneLine_urlsplit (SingleLine.append (by decide) h) hsplit'
  unfold maskUrlPassword
  split
  · exact h
  · split
    · exact hblind
    · next parts schemeless hparts =>
      split
      · exact hblind
      · next user password hostport hinfo =>
        have hon := hsplit hparts
        have hinfo' : userinfo parts.netloc = some (user, password, hostport) := by
          split at hinfo
          · cases hinfo
          · exact hinfo
        unfold userinfo at hinfo'
        split at hinfo'
        · cases hinfo'
        · next info host hlast =>
          obtain ⟨⟨u, p⟩, hcut, hsame⟩ := Option.map_eq_some_iff.1 hinfo'
          obtain ⟨rfl, rfl, rfl⟩ : u = user ∧ p = password ∧ host = hostport := by
            simpa using hsame
          obtain ⟨hinfo, hhost⟩ := singleLine_cutLast hon.netloc hlast
          have hnetloc : SingleLine (u ++ ':' :: mask ++ '@' :: host) :=
            ((singleLine_cut hinfo hcut).1.append (singleLine_cons hcolon hmask)).append
              (singleLine_cons hat hhost)
          have hunsplit : SingleLine (urlunsplit
              { parts with netloc := u ++ ':' :: mask ++ '@' :: host }) :=
            singleLine_urlunsplit ⟨hon.scheme, hnetloc, hon.path, hon.query, hon.fragment⟩
          unfold unsplitUrl
          simp only
          split
          · exact hunsplit.mono (List.drop_suffix _ _).subset
          · exact hunsplit

theorem singleLine_maskUrl (h : SingleLine value) : SingleLine (maskUrl value) := by
  have hpassword := singleLine_maskUrlPassword h
  unfold maskUrl
  simp only
  split
  · exact (hpassword.append (by decide)).mono (maskQueryFrom_subset 0 _)
  · exact hpassword

end OneLine

end Backup

end Mtrtk
