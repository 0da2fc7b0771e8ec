import Mtrtk.EnvRoundTrip

/-!
# The lines an update leaves alone

A line of the file is its text up to a line break, and the break that ends it : `splitlines` ends
one at any of its line breaks, and the last one may have none (`FileLine`). `update_env` is to leave
each line that binds no updated key as it is, its end included (`LeavesOthers`).

It joins the lines with line feeds. `leavesOthers_iff` : the lines it does not rewrite stay as they
are if and only if each of them ends in a single line feed.
-/

namespace Mtrtk

namespace EnvFile

/-! ## Lines with their ends -/

/-- A line, and the line break at its end, `[]` at the end of a text without one. -/
structure FileLine where
  body : Str
  ending : Str
  deriving DecidableEq

/-- `splitlines(keepends=True)` of what is left, with the line so far. -/
def fileLinesFrom (body : Str) : Str → List FileLine
  | [] => if body = [] then [] else [⟨body, []⟩]
  | '\r' :: '\n' :: cs => ⟨body, ['\r', '\n']⟩ :: fileLinesFrom [] cs
  | c :: cs =>
    if isLineBreak c then ⟨body, [c]⟩ :: fileLinesFrom [] cs else fileLinesFrom (body ++ [c]) cs

/-- `splitlines(keepends=True)`. -/
def fileLines (text : Str) : List FileLine := fileLinesFrom [] text

theorem splitlinesFrom_cr {cs : Str} (h : ∀ cs', cs ≠ '\n' :: cs') (line : Str) (cr : Bool) :
    splitlinesFrom line cr cs = splitlinesFrom line false cs := by
  cases cs with
  | nil => rfl
  | cons c cs =>
    have hc : c ≠ '\n' := fun hc => h cs (hc ▸ rfl)
    simp [splitlinesFrom, hc]

/-- They are the lines of `splitlines`. -/
theorem body_fileLinesFrom (body text : Str) :
    (fileLinesFrom body text).map FileLine.body = splitlinesFrom body false text := by
  fun_induction fileLinesFrom body text with
  | case1 => rfl
  | case2 body hbody => simp [splitlinesFrom, hbody]
  | case3 body cs ih =>
    have hcr : isLineBreak '\r' = true := by decide
    simp [splitlinesFrom, hcr, ih]
  | case4 body c cs hcrlf hc ih =>
    rw [List.map_cons, ih, splitlinesFrom, if_neg (by simp), if_pos hc]
    by_cases hcr : c = '\r'
    · rw [splitlinesFrom_cr (fun cs' hcs => hcrlf cs' hcr hcs) [] (decide (c = '\r'))]
    · rw [decide_eq_false hcr]
  | case5 body c cs hcrlf hc ih => rw [ih, splitlinesFrom, if_neg (by simp), if_neg hc]

/-- Only the last line may have no end, and an end of two is one of Windows. -/
structure Ended (lines : List FileLine) : Prop where
  breaks : ∀ line ∈ lines,
    line.ending = [] ∨ line.ending = ['\r', '\n'] ∨ ∃ c, line.ending = [c]
  last : lines.Pairwise fun line _ => line.ending ≠ []

theorem Ended.cons {line : FileLine} {lines : List FileLine} (hne : line.ending ≠ [])
    (hbreak : line.ending = ['\r', '\n'] ∨ ∃ c, line.ending = [c]) (h : Ended lines) :
    Ended (line :: lines) where
  breaks := List.forall_mem_cons.2 ⟨.inr hbreak, h.breaks⟩
  last := List.pairwise_cons.2 ⟨fun _ _ => hne, h.last⟩

theorem ended_fileLinesFrom (body text : Str) : Ended (fileLinesFrom body text) := by
  fun_induction fileLinesFrom body text with
  | case1 => exact ⟨by simp, .nil⟩
  | case2 body hbody => exact ⟨by simp, List.pairwise_singleton _ _⟩
  | case3 body cs ih => exact ih.cons (by simp) (.inl rfl)
  | case4 body c cs hcrlf hc ih => exact ih.cons (by simp) (.inr ⟨c, rfl⟩)
  | case5 body c cs hcrlf hc ih => exact ih

/-! ## The rest of the file -/

/-- The line binds a key that is updated. -/
def bindsUpdated (encoded : List (Str × Str)) (raw : Str) : Bool :=
  (parseLine raw).any fun e => (encoded.lookup e.key).isSome

/-- What stands in the place of a line that binds an updated key : nothing, where a later line
binds it too. -/
def replacement (encoded : List (Str × Str)) (raw : Str) (later : List Str) : List Str :=
  match parseLine raw with
  | none => []
  | some e =>
    match encoded.lookup e.key with
    | none => []
    | some value =>
      if (lastEntry later e.key).isSome then [] else writtenLines e.key value e.comment

/-- The lines with the others as they are. -/
def framed (encoded : List (Str × Str)) : List FileLine → Str
  | [] => []
  | line :: lines =>
    (if bindsUpdated encoded line.body then
      joinLines (replacement encoded line.body (lines.map FileLine.body))
    else line.body ++ line.ending) ++ framed encoded lines

/-- The lines of the keys that no line binds. -/
def appended (encoded : List (Str × Str)) (lines : List Str) : List Str :=
  (encoded.filter fun e => (lastEntry lines e.1).isNone).map fun e => e.1 ++ '=' :: e.2

/-- The docstring of `update_env` : the lines of updated keys are rewritten or dropped, those of
new keys are appended, each with a line feed, and "the rest of the file" is left "byte-for-byte
alone". -/
def LeavesOthers (text : Str) (updates : List (Str × Str)) : Prop :=
  updateEnv text updates = .ok (framed (encodedUpdates updates) (fileLines text) ++
    joinLines (appended (encodedUpdates updates) (splitlines text)))

theorem joinLines_append (a b : List Str) : joinLines (a ++ b) = joinLines a ++ joinLines b := by
  simp only [joinLines_eq, List.flatMap_append]

theorem rewriteLines_cons (encoded : List (Str × Str)) (raw : Str) (lines : List Str) :
    rewriteLines encoded (raw :: lines) =
      (if bindsUpdated encoded raw then replacement encoded raw lines else [raw]) ++
        rewriteLines encoded lines := by
  rw [rewriteLines, bindsUpdated, replacement]
  cases parseLine raw with
  | none => rfl
  | some e =>
    cases hlookup : encoded.lookup e.key with
    | none => simp [hlookup]
    | some value =>
      simp only [Option.any_some, hlookup, Option.isSome_some, if_true]
      split <;> rfl

/-- The lines written are the lines as they are to be, before the same text, only where those that
are kept end in a line feed. -/
theorem rewriteLines_iff (encoded : List (Str × Str)) (rest : Str) {lines : List FileLine}
    (h : Ended lines) :
    joinLines (rewriteLines encoded (lines.map FileLine.body)) ++ rest =
        framed encoded lines ++ rest ↔
      ∀ line ∈ lines, bindsUpdated encoded line.body = false → line.ending = ['\n'] := by
  induction lines with
  | nil => simp [rewriteLines, framed, joinLines]
  | cons line lines ih =>
    obtain ⟨hlast, hpair⟩ := List.pairwise_cons.1 h.last
    obtain ⟨hbreak, hbreaks⟩ := List.forall_mem_cons.1 h.breaks
    have ih := ih ⟨hbreaks, hpair⟩
    rw [List.map_cons, rewriteLines_cons, joinLines_append, framed, List.forall_mem_cons, ← ih,
      List.append_assoc, List.append_assoc]
    cases hbinds : bindsUpdated encoded line.body with
    | true => simp
    | false =>
      have hkept : joinLines [line.body] = line.body ++ ['\n'] := by simp [joinLines]
      simp only [Bool.false_eq_true, if_false, hkept, List.append_assoc, List.append_cancel_left_eq,
        forall_true_left]
      rcases hbreak with hnone | hcrlf | ⟨c, hc⟩
      · -- Behind a line without an end there is none.
        have hnil : lines = [] := by
          rcases lines with _ | ⟨line', lines⟩
          · rfl
          · exact absurd hnone (hlast line' (by simp))
        simp [hnone, hnil, rewriteLines, framed, joinLines]
      · simp [hcrlf]
      · simp [hc, eq_comm]

/-- Every line that binds no updated key is left as it is if and only if each of them ends in a
single line feed. -/
theorem leavesOthers_iff {updates : List (Str × Str)} (h : EnvUpdates updates) (text : Str) :
    LeavesOthers text updates ↔
      ∀ line ∈ fileLines text, bindsUpdated (encodedUpdates updates) line.body = false →
        line.ending = ['\n'] := by
  have hbody : (fileLines text).map FileLine.body = splitlines text := body_fileLinesFrom [] text
  rw [LeavesOthers, h.updateEnv_eq, Except.ok.injEq, updatedLines, joinLines_append, ← hbody]
  exact rewriteLines_iff _ _ (ended_fileLinesFrom [] text)

/-- A comment before the line that is rewritten. -/
theorem leavesOthers_iff_comment :
    LeavesOthers "# roof\nROLE=base\n".toList [("ROLE".toList, "rover".toList)] :=
  (leavesOthers_iff ⟨by decide, by decide⟩ _).2 (by decide)

/-- The line end of a comment is changed, and a form feed in one makes a binding of its end. -/
theorem others_changed :
    ¬LeavesOthers "# roof\r\nROLE=base\r\n".toList [("ROLE".toList, "rover".toList)] ∧
      ¬LeavesOthers "# roof\x0cROLE=base\n".toList [("A".toList, "1".toList)] := by
  constructor
  · intro h
    rw [LeavesOthers, EnvUpdates.updateEnv_eq ⟨by decide, by decide⟩] at h
    exact absurd (Except.ok.inj h) (by decide)
  · intro h
    rw [LeavesOthers, EnvUpdates.updateEnv_eq ⟨by decide, by decide⟩] at h
    exact absurd (Except.ok.inj h) (by decide)

end EnvFile

end Mtrtk
