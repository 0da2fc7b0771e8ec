import Mtrtk.Daemon
import Mtrtk.Text

/-!
# The `.env` file

`web/envfile.py` : `read_env` reads the bindings of a `.env` text, `update_env` sets keys in it and
leaves the other lines alone. A line is split as `_ASSIGN_RE` does into its key and the rest
(`matchAssign`), and the rest into a value, bare or in quotes, and what follows it
(`parseValue`).

The value written is `encodeValue`, bare where a bare one reads back as itself. `parse_quoted` and
`parse_bare` say what is read of it with any text behind it, `splitlines_join` that the lines
written are the lines read.
-/

namespace Mtrtk

namespace EnvFile

/-! ## Lines -/

/-- Where `str.splitlines` ends a line. -/
def isLineBreak (c : Char) : Bool :=
  let n := c.toNat
  (0x0A ≤ n && n ≤ 0x0D) || (0x1C ≤ n && n ≤ 0x1E) || n = 0x85 || n = 0x2028 || n = 0x2029

/-- `splitlines` of what is left, with the line so far and whether the code point before was a
carriage return. -/
def splitlinesFrom (line : Str) (cr : Bool) : Str → List Str
  | [] => if line = [] then [] else [line]
  | c :: cs =>
    if c = '\n' ∧ cr then splitlinesFrom line false cs
    else if isLineBreak c then line :: splitlinesFrom [] (c = '\r') cs
    else splitlinesFrom (line ++ [c]) false cs

/-- `str.splitlines()`. -/
def splitlines (text : Str) : List Str := splitlinesFrom [] false text

/-- `"\n".join(lines) + "\n" if lines else ""`. -/
def joinLines (lines : List Str) : Str :=
  if lines = [] then [] else ['\n'].intercalate lines ++ ['\n']

/-! ## Reading -/

/-- `[A-Za-z_]`. -/
def isKeyStart (c : Char) : Bool :=
  let n := c.toNat
  (0x41 ≤ n && n ≤ 0x5A) || (0x61 ≤ n && n ≤ 0x7A) || c = '_'

/-- `[A-Za-z0-9_]`. -/
def isKeyChar (c : Char) : Bool := isKeyStart c || (0x30 ≤ c.toNat && c.toNat ≤ 0x39)

/-- `[^\S\r\n]`. -/
def isGap (c : Char) : Bool := isWhite c && c ≠ '\r' && c ≠ '\n'

/-- A key, `=` and the rest. -/
def matchKey (s : Str) : Option (Str × Str) :=
  let key := s.takeWhile isKeyChar
  match (s.dropWhile isKeyChar).dropWhile isGap with
  | '=' :: rest => if key.head?.any isKeyStart then some (key, rest) else none
  | _ => none

def exportWord : Str := "export".toList

/-- `_ASSIGN_RE`, of a line. -/
def matchAssign (raw : Str) : Option (Str × Str) :=
  let s := raw.dropWhile isGap
  let exported :=
    if exportWord.isPrefixOf s ∧ (s.drop exportWord.length).head?.any isGap then
      matchKey ((s.drop exportWord.length).dropWhile isGap)
    else none
  exported <|> matchKey s

/-- `(?:\\.|[^"\\])*"`, of a line, for either quote : what is in the quotes, and what follows. -/
def scanQuoted (quote : Char) : Bool → Str → Option (Str × Str)
  | _, [] => none
  | true, c :: cs => (scanQuoted quote false cs).map (Prod.map (c :: ·) id)
  | false, c :: cs =>
    if c = quote then some ([], cs)
    else (scanQuoted quote (c = '\\') cs).map (Prod.map (c :: ·) id)

/-- `_DOUBLE_ESCAPES`, and what they are decoded to. -/
def doubleEscape (c : Char) : Option Char :=
  match c with
  | '\\' => some '\\'
  | '\'' => some '\''
  | '"' => some '"'
  | 'a' => some (Char.ofNat 7)
  | 'b' => some (Char.ofNat 8)
  | 'f' => some (Char.ofNat 12)
  | 'n' => some '\n'
  | 'r' => some '\r'
  | 't' => some '\t'
  | 'v' => some (Char.ofNat 11)
  | _ => none

/-- `_SINGLE_ESCAPES`. -/
def singleEscape (c : Char) : Option Char := if c = '\\' ∨ c = '\'' then some c else none

/-- `_decode`. -/
def decodeEscapes (escape : Char → Option Char) : Str → Str
  | [] => []
  | [c] => [c]
  | c :: d :: cs =>
    match if c = '\\' then escape d else none with
    | some e => e :: decodeEscapes escape cs
    | none => c :: decodeEscapes escape (d :: cs)

/-- `\s+#`, at the beginning. -/
def commentAt : Str → Bool
  | [] => false
  | c :: cs => isWhite c && (cs.dropWhile isWhite).head? = some '#'

/-- What comes before the first `\s+#`, and the rest. -/
def cutComment : Str → Str × Str
  | [] => ([], [])
  | c :: cs => if commentAt (c :: cs) then ([], c :: cs) else ((cutComment cs).map (c :: ·) id)

/-- `str.rstrip()`. -/
def rstrip (s : Str) : Str := s.rdropWhile isWhite

/-- A value that is not in quotes, and the comment. -/
def parseBare (rest : Str) : Str × Str := (cutComment rest).map rstrip id

/-- The value of the rest of a line, and what follows it. -/
def parseValue (rest : Str) : Str × Str :=
  let rest := rest.dropWhile fun c => c = ' ' ∨ c = '\t'
  match rest with
  | '"' :: cs =>
    match scanQuoted '"' false cs with
    | some (body, tail) => (decodeEscapes doubleEscape body, tail)
    | none => parseBare rest
  | '\'' :: cs =>
    match scanQuoted '\'' false cs with
    | some (body, tail) => (decodeEscapes singleEscape body, tail)
    | none => parseBare rest
  | _ => parseBare rest

/-- `_Entry`. -/
structure EnvEntry where
  key : Str
  value : Str
  comment : Str
  deriving DecidableEq

/-- `_parse_line`. -/
def parseLine (raw : Str) : Option EnvEntry :=
  (matchAssign raw).map fun m =>
    { key := m.1, value := (parseValue m.2).1, comment := (parseValue m.2).2 }

/-- The bindings of the lines, in order. -/
def entriesOf (lines : List Str) : List EnvEntry := lines.filterMap parseLine

/-- The last entry of a key. -/
def lastEntry (lines : List Str) (key : Str) : Option EnvEntry :=
  (entriesOf lines).findRev? fun e => e.key = key

/-- `read_env`, at a key. -/
def readEnv (text key : Str) : Option Str := (lastEntry (splitlines text) key).map EnvEntry.value

/-! ## Writing -/

/-- `_COMMENT_RE.search`. -/
def hasComment : Str → Bool
  | [] => false
  | c :: cs => commentAt (c :: cs) || hasComment cs

/-- `_needs_quotes`. -/
def needsQuotes (value : Str) : Bool :=
  if value = [] then false
  else value ≠ strip value || hasComment value || value.head?.any (· ∈ ['#', '"', '\'']) ||
    value.any (· ∈ ['"', '\'', '\\'])

/-- `value.replace("\\", "\\\\").replace('"', '\\"')`. -/
def escapeValue (value : Str) : Str :=
  (value.flatMap fun c => if c = '\\' then ['\\', '\\'] else [c]).flatMap fun c =>
    if c = '"' then ['\\', '"'] else [c]

/-- What `_encode` returns. -/
def encodeValue (value : Str) : Str :=
  if needsQuotes value then '"' :: (escapeValue value ++ ['"']) else value

/-- `_encode`. -/
def encodeEnv (value : Str) : Except String Str :=
  (writable (String.ofList value)).map fun _ => encodeValue value

/-- The lines an updated key has in the place of its last one. -/
def writtenLines (key value comment : Str) : List Str :=
  if value = [] ∧ (strip comment).head? = some '#' then [strip comment, key ++ ['=']]
  else [key ++ '=' :: (value ++ comment)]

/-- The loop of `update_env` over the lines. -/
def rewriteLines (encoded : List (Str × Str)) : List Str → List Str
  | [] => []
  | raw :: lines =>
    match parseLine raw with
    | none => raw :: rewriteLines encoded lines
    | some e =>
      match encoded.lookup e.key with
      | none => raw :: rewriteLines encoded lines
      | some value =>
        if (lastEntry lines e.key).isSome then rewriteLines encoded lines
        else writtenLines e.key value e.comment ++ rewriteLines encoded lines

/-- The lines `update_env` writes. -/
def updatedLines (encoded : List (Str × Str)) (lines : List Str) : List Str :=
  rewriteLines encoded lines ++
    (encoded.filter fun e => (lastEntry lines e.1).isNone).map fun e => e.1 ++ '=' :: e.2

/-- `update_env`, of the text of the file, `""` where there is none. -/
def updateEnv (text : Str) (updates : List (Str × Str)) : Except String Str := do
  let encoded ← updates.mapM fun e => do return (e.1, ← encodeEnv e.2)
  return joinLines (updatedLines encoded (splitlines text))

/-! ## The lines written are the lines read -/

/-- A text of one line. -/
def SingleLine (s : Str) : Prop := ∀ c ∈ s, isLineBreak c = false

instance (s : Str) : Decidable (SingleLine s) := List.decidableBAll (isLineBreak · = false) s

theorem SingleLine.append {s t : Str} (hs : SingleLine s) (ht : SingleLine t) :
    SingleLine (s ++ t) :=
  fun c hc => (List.mem_append.1 hc).elim (hs c) (ht c)

theorem SingleLine.mono {s t : Str} (ht : SingleLine t) (h : s ⊆ t) : SingleLine s :=
  fun c hc => ht c (h hc)

theorem splitlinesFrom_line {l : Str} (h : SingleLine l) (line rest : Str) :
    splitlinesFrom line false (l ++ '\n' :: rest) =
      (line ++ l) :: splitlinesFrom [] false rest := by
  induction l generalizing line with
  | nil => simp [splitlinesFrom, isLineBreak]
  | cons c l ih =>
    obtain ⟨hc, hl⟩ := List.forall_mem_cons.1 h
    rw [List.cons_append, splitlinesFrom, if_neg (by simp), if_neg (by simp [hc]), ih hl]
    simp

theorem joinLines_eq (lines : List Str) : joinLines lines = lines.flatMap (· ++ ['\n']) := by
  unfold joinLines
  split
  · simp [*]
  · exact intercalate_append ['\n'] ‹_›

/-- Lines that are written are read as they are. -/
theorem splitlines_join {lines : List Str} (h : ∀ l ∈ lines, SingleLine l) :
    splitlines (joinLines lines) = lines := by
  rw [joinLines_eq]
  induction lines with
  | nil => rfl
  | cons l lines ih =>
    obtain ⟨hl, hlines⟩ := List.forall_mem_cons.1 h
    rw [List.flatMap_cons, List.append_assoc, splitlines, List.singleton_append,
      splitlinesFrom_line hl, List.nil_append]
    exact congrArg (l :: ·) (ih hlines)

theorem singleLine_splitlinesFrom {line : Str} (hline : SingleLine line) (cr : Bool) (text : Str) :
    ∀ l ∈ splitlinesFrom line cr text, SingleLine l := by
  induction text generalizing line cr with
  | nil =>
    rw [splitlinesFrom]
    split
    · simp
    · simpa using hline
  | cons c cs ih =>
    have hnil : SingleLine [] := fun c hc => absurd hc List.not_mem_nil
    rw [splitlinesFrom]
    split
    · exact ih hline false
    · split
      · exact List.forall_mem_cons.2 ⟨hline, ih hnil _⟩
      · rename_i hc
        refine ih (fun d hd => ?_) false
        rcases List.mem_append.1 hd with hd | hd
        · exact hline d hd
        · rw [List.mem_singleton.1 hd]
          simpa using hc

theorem singleLine_splitlines (text : Str) : ∀ l ∈ splitlines text, SingleLine l :=
  singleLine_splitlinesFrom (fun _ hc => absurd hc List.not_mem_nil) false text

/-! ## An assignment -/

/-- A name that can stand before the `=`. -/
structure IsKey (key : Str) : Prop where
  start : key.head?.any isKeyStart = true
  chars : ∀ c ∈ key, isKeyChar c = true

theorem isWhite_of_isKeyChar {c : Char} (h : isKeyChar c = true) : isWhite c = false := by
  simp only [isKeyChar, isKeyStart, isWhite, Bool.or_eq_true, Bool.and_eq_true, decide_eq_true_eq,
    Bool.or_eq_false_iff, Bool.and_eq_false_iff, decide_eq_false_iff_not] at h ⊢
  rcases h with (h | rfl) | h
  · omega
  · decide
  · omega

theorem isLineBreak_of_isKeyChar {c : Char} (h : isKeyChar c = true) : isLineBreak c = false := by
  simp only [isKeyChar, isKeyStart, isLineBreak, Bool.or_eq_true, Bool.and_eq_true,
    decide_eq_true_eq, Bool.or_eq_false_iff, Bool.and_eq_false_iff, decide_eq_false_iff_not] at h ⊢
  rcases h with (h | rfl) | h
  · omega
  · decide
  · omega

theorem IsKey.matchKey {key : Str} (h : IsKey key) (rest : Str) :
    matchKey (key ++ '=' :: rest) = some (key, rest) := by
  have hequals : isKeyChar '=' = false := by decide
  have htake : (key ++ '=' :: rest).takeWhile isKeyChar = key := by
    rw [List.takeWhile_append_of_pos h.chars, List.takeWhile_cons_of_neg (by simp [hequals])]
    simp
  have hdrop : ((key ++ '=' :: rest).dropWhile isKeyChar).dropWhile isGap = '=' :: rest := by
    rw [List.dropWhile_append_of_pos h.chars, List.dropWhile_cons_of_neg (by simp [hequals]),
      List.dropWhile_cons_of_neg (by decide)]
  simp only [EnvFile.matchKey, htake, hdrop]
  exact if_pos h.start

/-- What follows `export` in a line that begins with a key is no gap. -/
theorem IsKey.not_exported {key : Str} (h : IsKey key) (rest : Str)
    (hexport : exportWord.isPrefixOf (key ++ '=' :: rest) = true) :
    ((key ++ '=' :: rest).drop exportWord.length).head?.any isGap = false := by
  have hpre := List.isPrefixOf_iff_prefix.1 hexport
  rw [List.head?_drop]
  rcases Nat.lt_trichotomy exportWord.length key.length with hlt | heq | hgt
  · rw [List.getElem?_append_left hlt, List.getElem?_eq_getElem hlt]
    simp [isGap, isWhite_of_isKeyChar (h.chars _ (List.getElem_mem hlt))]
  · rw [List.getElem?_append_right heq.ge, heq, Nat.sub_self]
    rfl
  · -- The `=` would be a letter of the word.
    obtain ⟨t, ht⟩ := hpre
    have hletter : (exportWord ++ t)[key.length]? = some '=' := by simp [ht]
    rw [List.getElem?_append_left hgt] at hletter
    exact absurd (List.mem_of_getElem? hletter) (by decide)

theorem IsKey.matchAssign {key : Str} (h : IsKey key) (rest : Str) :
    matchAssign (key ++ '=' :: rest) = some (key, rest) := by
  have hstart : (key ++ '=' :: rest).dropWhile isGap = key ++ '=' :: rest := by
    cases key with
    | nil => exact absurd h.start (by simp)
    | cons c key =>
      have hc := isWhite_of_isKeyChar (h.chars c (by simp))
      rw [List.cons_append, List.dropWhile_cons_of_neg (by simp [isGap, hc])]
  have hnot : ¬(exportWord.isPrefixOf (key ++ '=' :: rest) ∧
      ((key ++ '=' :: rest).drop exportWord.length).head?.any isGap) := fun hexport =>
    Bool.false_ne_true ((h.not_exported rest hexport.1).symm.trans hexport.2)
  simp only [EnvFile.matchAssign, hstart, if_neg hnot]
  exact h.matchKey rest

/-- A binding that is written is one that is read. -/
theorem IsKey.parseLine {key : Str} (h : IsKey key) (rest : Str) :
    parseLine (key ++ '=' :: rest) = some ⟨key, (parseValue rest).1, (parseValue rest).2⟩ := by
  rw [EnvFile.parseLine, h.matchAssign rest]
  rfl

theorem matchKey_some {s key rest : Str} (h : matchKey s = some (key, rest)) :
    IsKey key ∧ ∃ pre, s = pre ++ '=' :: rest := by
  unfold EnvFile.matchKey at h
  split at h
  next tail heq =>
    obtain ⟨hstart, hkey⟩ := Option.ite_none_right_eq_some.1 h
    obtain ⟨rfl, rfl⟩ := Prod.mk.inj (Option.some.inj hkey)
    refine ⟨⟨hstart, fun c hc => List.mem_takeWhile_imp hc⟩, ?_⟩
    refine ⟨s.takeWhile isKeyChar ++ (s.dropWhile isKeyChar).takeWhile isGap, ?_⟩
    rw [List.append_assoc, ← heq, List.takeWhile_append_dropWhile,
      List.takeWhile_append_dropWhile]
  next => exact absurd h (by simp)

/-- What an assignment is split into. -/
theorem matchAssign_some {raw key rest : Str} (h : matchAssign raw = some (key, rest)) :
    IsKey key ∧ ∃ pre, raw = pre ++ '=' :: rest := by
  have hsplit : ∀ {s t : Str}, s <:+ t → matchKey s = some (key, rest) →
      IsKey key ∧ ∃ pre, t = pre ++ '=' :: rest := fun {s t} hst hs => by
    obtain ⟨hkey, pre, hpre⟩ := matchKey_some hs
    obtain ⟨u, hu⟩ := hst
    exact ⟨hkey, u ++ pre, by rw [← hu, hpre, List.append_assoc]⟩
  simp only [EnvFile.matchAssign, Option.orElse_eq_orElse, Option.orElse_eq_or,
    Option.or_eq_some_iff] at h
  rcases h with hexport | ⟨-, hbare⟩
  · split at hexport
    · refine hsplit ?_ hexport
      exact ((List.dropWhile_suffix _).trans (List.drop_suffix _ _)).trans (List.dropWhile_suffix _)
    · exact absurd hexport (by simp)
  · exact hsplit (List.dropWhile_suffix _) hbare

theorem isKey_of_parseLine {raw : Str} {e : EnvEntry} (h : parseLine raw = some e) :
    IsKey e.key := by
  obtain ⟨⟨key, rest⟩, hm, rfl⟩ := Option.map_eq_some_iff.1 h
  exact (matchAssign_some hm).1

/-- A line that is a comment binds nothing. -/
theorem parseLine_hash (s : Str) : parseLine ('#' :: s) = none := rfl

/-! ## A value -/

/-- The code points a character of a quoted value is written as. -/
def escapeChar (c : Char) : Str := if c = '\\' ∨ c = '"' then ['\\', c] else [c]

theorem escapeValue_eq (v : Str) : escapeValue v = v.flatMap escapeChar := by
  rw [escapeValue, List.flatMap_assoc]
  refine congrArg (v.flatMap ·) (funext fun c => ?_)
  by_cases hbs : c = '\\'
  · simp [hbs, escapeChar]
  · by_cases hq : c = '"' <;> simp [hbs, hq, escapeChar]

theorem scanQuoted_escapeValue (v t : Str) :
    scanQuoted '"' false (escapeValue v ++ '"' :: t) = some (escapeValue v, t) := by
  rw [escapeValue_eq]
  induction v with
  | nil => rfl
  | cons c v ih =>
    rw [List.flatMap_cons, List.append_assoc]
    by_cases hc : c = '\\' ∨ c = '"'
    · rw [escapeChar, if_pos hc, List.cons_append, List.singleton_append, scanQuoted,
        if_neg (by decide), decide_eq_true rfl, scanQuoted, ih]
      rfl
    · obtain ⟨hbs, hq⟩ := not_or.1 hc
      rw [escapeChar, if_neg hc, List.singleton_append, scanQuoted, if_neg hq,
        decide_eq_false hbs, ih]
      rfl

theorem decodeEscapes_escapeValue (v : Str) :
    decodeEscapes doubleEscape (escapeValue v) = v := by
  rw [escapeValue_eq]
  induction v with
  | nil => rfl
  | cons c v ih =>
    rw [List.flatMap_cons]
    by_cases hc : c = '\\' ∨ c = '"'
    · have hescape : doubleEscape c = some c := by rcases hc with rfl | rfl <;> rfl
      rw [escapeChar, if_pos hc, List.cons_append, List.singleton_append, decodeEscapes,
        if_pos rfl, hescape, ih]
    · rw [escapeChar, if_neg hc, List.singleton_append]
      cases hv : v.flatMap escapeChar with
      | nil => rw [decodeEscapes, ← ih, hv]; rfl
      | cons d s =>
        rw [decodeEscapes, if_neg (fun h => hc (.inl h)), ← hv, ih]

/-- A value in quotes is read as it is, with anything behind it. -/
theorem parse_quoted (v t : Str) : parseValue ('"' :: (escapeValue v ++ ['"']) ++ t) = (v, t) := by
  rw [List.cons_append, List.append_assoc, List.singleton_append, parseValue,
    List.dropWhile_cons_of_neg (by decide)]
  simp only [scanQuoted_escapeValue, decodeEscapes_escapeValue]

theorem not_needsQuotes {v : Str} (hv : v ≠ []) (h : needsQuotes v = false) :
    v = strip v ∧ hasComment v = false ∧ v.head?.any (· ∈ ['#', '"', '\'']) = false ∧
      v.any (· ∈ ['"', '\'', '\\']) = false := by
  rw [needsQuotes, if_neg hv] at h
  simpa [Bool.or_eq_false_iff, and_assoc] using h

/-- Blanks at neither end. -/
theorem ends_of_strip {v : Str} (h : v = strip v) :
    (∀ c, v.head? = some c → isWhite c = false) ∧ ∀ c, v.getLast? = some c → isWhite c = false := by
  have hdrop : v.dropWhile isWhite = v := by
    refine (List.dropWhile_suffix isWhite).eq_of_length_le ?_
    calc v.length = (strip v).length := congrArg List.length h
      _ ≤ (v.dropWhile isWhite).length := (List.rdropWhile_prefix isWhite _).length_le
  have hrdrop : v.rdropWhile isWhite = v := by
    rw [strip, hdrop] at h
    exact h.symm
  refine ⟨fun c hc => ?_, fun c hc => ?_⟩
  · have := List.head?_dropWhile_not isWhite v
    rw [hdrop, hc] at this
    simpa using this
  · obtain ⟨hne, rfl⟩ := List.mem_getLast?_eq_getLast hc
    simpa using List.rdropWhile_eq_self_iff.1 hrdrop hne

section Bare

variable {v t : Str} (hlast : ∀ c, v.getLast? = some c → isWhite c = false)

include hlast

theorem rstrip_append (w : Str) : rstrip (v ++ w) = v ↔ ∀ c ∈ w, isWhite c = true := by
  constructor
  · intro h
    have hsplit := List.rdropWhile_append_rtakeWhile (p := isWhite) (l := v ++ w)
    rw [← rstrip, h] at hsplit
    rw [← List.append_cancel_left hsplit]
    exact fun c hc => List.mem_rtakeWhile_imp hc
  · intro h
    have hkeep : v.rdropWhile isWhite = v := List.rdropWhile_eq_self_iff.2 fun hne => by
      simp [hlast _ (List.getLast?_eq_some_getLast hne)]
    rw [rstrip, List.rdropWhile, List.reverse_append,
      List.dropWhile_append_of_pos (by simpa using h)]
    exact hkeep

theorem commentAt_append (hv : v ≠ []) : commentAt (v ++ t) = commentAt v := by
  obtain ⟨c, v, rfl⟩ := List.exists_cons_of_ne_nil hv
  rw [List.cons_append, commentAt, commentAt]
  cases hc : isWhite c with
  | false => rfl
  | true =>
    -- The last code point of `v` is no blank, so the blanks end before it.
    have hne : v.dropWhile isWhite ≠ [] := fun hnil => by
      have hall := List.dropWhile_eq_nil_iff.1 hnil
      rcases v.eq_nil_or_concat with rfl | ⟨v, d, rfl⟩
      · exact absurd (hlast c rfl) (by simp [hc])
      · have hd : (c :: v.concat d).getLast? = some d :=
          List.getLast?_eq_some_iff.2 ⟨c :: v, by simp⟩
        exact absurd (hlast d hd) (by simp [hall d (by simp)])
    rw [List.dropWhile_append, if_neg (by simpa using hne), List.head?_append_of_ne_nil _ hne]

theorem cutComment_append (h : hasComment v = false) :
    cutComment (v ++ t) = (cutComment t).map (v ++ ·) id := by
  induction v with
  | nil => rfl
  | cons c v ih =>
    have hat := commentAt_append (t := t) hlast (List.cons_ne_nil c v)
    rw [hasComment, Bool.or_eq_false_iff] at h
    have htail : ∀ d, v.getLast? = some d → isWhite d = false := fun d hd =>
      hlast d (by rw [List.getLast?_cons, hd]; rfl)
    rw [List.cons_append, cutComment, ← List.cons_append, hat, h.1, if_neg (by simp),
      ih htail h.2]
    rfl

end Bare

theorem white_cutComment (t : Str) :
    (∀ c ∈ (cutComment t).1, isWhite c = true) ↔
      (∀ c ∈ t, isWhite c = true) ∨ commentAt t = true := by
  induction t with
  | nil => simp [cutComment]
  | cons c t ih =>
    rw [cutComment]
    cases hat : commentAt (c :: t) with
    | true => simp
    | false =>
      rw [if_neg (by simp)]
      simp only [Prod.map_fst, List.forall_mem_cons, ih, Bool.false_eq_true, or_false]
      refine and_congr_right fun hc => or_iff_left fun htail => ?_
      -- A comment after one more blank.
      cases t with
      | nil => exact absurd htail (by simp [commentAt])
      | cons d t =>
        simp only [commentAt, Bool.and_eq_true, Bool.and_eq_false_iff, hc, Bool.true_eq_false,
          false_or] at htail hat
        rw [List.dropWhile_cons_of_pos htail.1, htail.2] at hat
        simp at hat

/-- A bare value is read as it is before blanks or a comment, and nothing else. -/
theorem parse_bare {v : Str} (hv : v ≠ []) (h : needsQuotes v = false) (t : Str) :
    (parseValue (v ++ t)).1 = v ↔ (∀ c ∈ t, isWhite c = true) ∨ commentAt t = true := by
  obtain ⟨hstrip, hcomment, hhead, -⟩ := not_needsQuotes hv h
  obtain ⟨hfirst, hlast⟩ := ends_of_strip hstrip
  have hparse : parseValue (v ++ t) = parseBare (v ++ t) := by
    obtain ⟨c, v, rfl⟩ := List.exists_cons_of_ne_nil hv
    have hc := hfirst c rfl
    have hblank : ¬(c = ' ' ∨ c = '\t') := by
      rintro (rfl | rfl) <;> exact absurd hc (by decide)
    simp only [List.head?_cons, Option.any_some, decide_eq_false_iff_not, List.mem_cons,
      List.not_mem_nil, or_false, not_or] at hhead
    rw [List.cons_append, parseValue, List.dropWhile_cons_of_neg (by simpa using hblank)]
    split
    next heq => exact absurd (List.cons.inj heq).1 hhead.2.1
    next heq => exact absurd (List.cons.inj heq).1 hhead.2.2
    next => rfl
  rw [hparse, parseBare, cutComment_append hlast hcomment, ← white_cutComment,
    ← rstrip_append hlast]
  rfl

end EnvFile

end Mtrtk
