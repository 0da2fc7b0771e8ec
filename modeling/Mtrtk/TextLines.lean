import Mtrtk.EnvFile

/-!
# Lines and blanks

What `splitlines` gives of a text put together of parts. A line that has ended is not changed by
what follows (`splitlinesFrom_append`), so that the lines of a file are those of its parts
(`splitlines_flatMap`). Blanks at the end of a text may end lines, but these are blank again
(`splitlines_blank_tail`).

`inked` counts the code points that are no blanks. No line has more of them than the text, and
`strip` takes none away.
-/

namespace Mtrtk

namespace EnvFile

/-! ## Parts -/

/-- A line that ends is not changed by what follows it, but that a line feed behind its carriage
return belongs to it. -/
theorem splitlinesFrom_append {a : Str} {c : Char} (hc : isLineBreak c = true) {line : Str}
    {cr : Bool} (hcr : cr = true → line = []) (b : Str) :
    splitlinesFrom line cr (a ++ c :: b) =
      splitlinesFrom line cr (a ++ [c]) ++ splitlinesFrom [] (c = '\r') b := by
  induction a generalizing line cr with
  | nil =>
    rw [List.nil_append, List.nil_append, splitlinesFrom, splitlinesFrom]
    split
    · next h => simp [splitlinesFrom, hcr h.2, h.1]
    · simp [splitlinesFrom]
  | cons d a ih =>
    rw [List.cons_append, List.cons_append, splitlinesFrom, splitlinesFrom]
    split
    · exact ih (by simp)
    · split
      · rw [ih fun _ => rfl, List.cons_append]
      · exact ih (by simp)

/-- The first line ends at the first line break. -/
theorem splitlinesFrom_break {l : Str} (hl : SingleLine l) {c : Char} (hc : isLineBreak c = true)
    (line rest : Str) :
    splitlinesFrom line false (l ++ c :: rest) =
      (line ++ l) :: splitlinesFrom [] (c = '\r') rest := by
  induction l generalizing line with
  | nil => simp [splitlinesFrom, hc]
  | cons d l ih =>
    obtain ⟨hd, hl⟩ := List.forall_mem_cons.1 hl
    rw [List.cons_append, splitlinesFrom, if_neg (by simp), if_neg (by simp [hd]), ih hl]
    simp

/-- Behind a text of one line the line is not ended. -/
theorem splitlinesFrom_singleLine {l : Str} (hl : SingleLine l) (line rest : Str) :
    splitlinesFrom line false (l ++ rest) = splitlinesFrom (line ++ l) false rest := by
  induction l generalizing line with
  | nil => simp
  | cons c l ih =>
    obtain ⟨hc, hl⟩ := List.forall_mem_cons.1 hl
    rw [List.cons_append, splitlinesFrom, if_neg (by simp), if_neg (by simp [hc]), ih hl]
    simp

/-- What comes before a text stands on its first line, and changes no other. -/
theorem splitlinesFrom_first (text : Str) :
    ∃ first lines, ∀ line, splitlinesFrom line false (text ++ ['\n']) =
      (line ++ first) :: lines := by
  induction text with
  | nil => exact ⟨[], [], fun line => by simp [splitlinesFrom, isLineBreak]⟩
  | cons c text ih =>
    obtain ⟨first, lines, heq⟩ := ih
    rcases hc : isLineBreak c with _ | _
    · refine ⟨c :: first, lines, fun line => ?_⟩
      rw [List.cons_append, splitlinesFrom, if_neg (by simp), if_neg (by simp [hc]), heq]
      simp
    · refine ⟨[], splitlinesFrom [] (c = '\r') (text ++ ['\n']), fun line => ?_⟩
      rw [List.cons_append, splitlinesFrom, if_neg (by simp), if_pos hc, List.append_nil]

/-- The lines of parts that end in a line feed. -/
theorem splitlines_flatMap (parts : List Str) :
    splitlines (parts.flatMap (· ++ ['\n'])) =
      parts.flatMap fun part => splitlines (part ++ ['\n']) := by
  induction parts with
  | nil => rfl
  | cons part parts ih =>
    have hn : isLineBreak '\n' = true := by decide
    have happend := @splitlinesFrom_append part '\n' hn [] false (by simp)
      (parts.flatMap (· ++ ['\n']))
    rw [List.flatMap_cons, List.flatMap_cons, ← ih, List.append_assoc]
    exact happend

/-- A text with a line break, at its first. -/
theorem exists_first_break {s : Str} (h : ¬SingleLine s) :
    ∃ p c q, s = p ++ c :: q ∧ SingleLine p ∧ isLineBreak c = true := by
  induction s with
  | nil => exact absurd (fun c hc => absurd hc List.not_mem_nil) h
  | cons d s ih =>
    rcases hd : isLineBreak d with _ | _
    · obtain ⟨p, c, q, rfl, hp, hc⟩ := ih fun hs => h (List.forall_mem_cons.2 ⟨hd, hs⟩)
      exact ⟨d :: p, c, q, rfl, List.forall_mem_cons.2 ⟨hd, hp⟩, hc⟩
    · exact ⟨[], d, s, rfl, fun c hc => absurd hc List.not_mem_nil, hd⟩

/-! ## Blanks -/

theorem isWhite_of_isLineBreak {c : Char} (h : isLineBreak c = true) : isWhite c = true := by
  simp only [isLineBreak, isWhite, Bool.or_eq_true, Bool.and_eq_true, decide_eq_true_eq] at h ⊢
  omega

/-- Of blanks the lines are blank. -/
theorem isBlank_splitlinesFrom {w : Str} (hw : IsBlank w) {line : Str} (hline : IsBlank line)
    (cr : Bool) : ∀ l ∈ splitlinesFrom line cr w, IsBlank l := by
  have hnil : IsBlank [] := fun c hc => absurd hc List.not_mem_nil
  induction w generalizing line cr with
  | nil =>
    rw [splitlinesFrom]
    split
    · simp
    · simpa using hline
  | cons c w ih =>
    obtain ⟨hc, hw⟩ := List.forall_mem_cons.1 hw
    rw [splitlinesFrom]
    split
    · exact ih hw hline false
    · split
      · exact List.forall_mem_cons.2 ⟨hline, ih hw hnil _⟩
      · refine ih hw (fun d hd => ?_) false
        rcases List.mem_append.1 hd with hd | hd
        · exact hline d hd
        · rwa [List.mem_singleton.1 hd]

/-- The first line of a text takes some of the blanks behind it, the others are blank. -/
theorem splitlinesFrom_blank_tail {w : Str} (hw : IsBlank w) (line : Str) :
    ∃ w' lines, splitlinesFrom line false (w ++ ['\n']) = (line ++ w') :: lines ∧ IsBlank w' ∧
      ∀ l ∈ lines, IsBlank l := by
  induction w generalizing line with
  | nil => exact ⟨[], [], by simp [splitlinesFrom, isLineBreak], by simp [IsBlank], by simp⟩
  | cons c w ih =>
    obtain ⟨hc, hw⟩ := List.forall_mem_cons.1 hw
    rw [List.cons_append, splitlinesFrom, if_neg (by simp)]
    split
    · have hrest : IsBlank (w ++ ['\n']) := fun d hd => by
        rcases List.mem_append.1 hd with hd | hd
        · exact hw d hd
        · rw [List.mem_singleton.1 hd]
          decide
      exact ⟨[], _, by rw [List.append_nil], by simp [IsBlank],
        isBlank_splitlinesFrom hrest (by simp [IsBlank]) _⟩
    · obtain ⟨w', lines, heq, hw', hlines⟩ := ih hw (line ++ [c])
      refine ⟨c :: w', lines, by rw [heq]; simp, ?_, hlines⟩
      exact List.forall_mem_cons.2 ⟨hc, hw'⟩

theorem splitlines_blank_tail {l w : Str} (hl : SingleLine l) (hw : IsBlank w) :
    ∃ w' lines, splitlines (l ++ w ++ ['\n']) = (l ++ w') :: lines ∧ IsBlank w' ∧
      ∀ line ∈ lines, IsBlank line := by
  rw [splitlines, List.append_assoc, splitlinesFrom_singleLine hl, List.nil_append]
  exact splitlinesFrom_blank_tail hw l

theorem rdropWhile_append_cons {p : Char → Bool} {c : Char} (hc : p c = false) (s t : Str) :
    (s ++ c :: t).rdropWhile p = s ++ c :: t.rdropWhile p := by
  have hstop : (c :: s.reverse).dropWhile p = c :: s.reverse := by simp [hc]
  rw [List.rdropWhile, List.reverse_append, List.reverse_cons, List.append_assoc,
    List.singleton_append, List.dropWhile_append, hstop, List.rdropWhile]
  split
  · next hnil => simp [List.isEmpty_iff.1 hnil]
  · simp

theorem rstrip_append_blank {w : Str} (hw : IsBlank w) (s : Str) : rstrip (s ++ w) = rstrip s := by
  rw [rstrip, List.rdropWhile, List.reverse_append, List.dropWhile_append_of_pos
    fun c hc => hw c (List.mem_reverse.1 hc), rstrip, List.rdropWhile]

/-- A text and the blanks at its end. -/
theorem exists_rstrip_append (s : Str) : ∃ w, s = rstrip s ++ w ∧ IsBlank w := by
  refine ⟨(s.reverse.takeWhile isWhite).reverse, ?_, fun c hc => ?_⟩
  · rw [rstrip, List.rdropWhile, ← List.reverse_append, List.takeWhile_append_dropWhile,
      List.reverse_reverse]
  · exact List.mem_takeWhile_imp (List.mem_reverse.1 hc)

theorem strip_append_blank {w : Str} (hw : IsBlank w) (s : Str) : strip (s ++ w) = strip s := by
  rw [strip, strip, List.dropWhile_append]
  split
  · next hnil =>
    rw [List.isEmpty_iff.1 hnil, List.dropWhile_eq_nil_iff.2 hw]
  · exact rstrip_append_blank hw _

theorem strip_rstrip (s : Str) : strip (rstrip s) = strip s := by
  obtain ⟨w, hs, hw⟩ := exists_rstrip_append s
  conv_rhs => rw [hs, strip_append_blank hw]

theorem strip_eq_nil {s : Str} (hs : IsBlank s) : strip s = [] := by
  rw [strip, List.dropWhile_eq_nil_iff.2 hs]
  rfl

theorem strip_eq_self {s : Str} (hs : ∀ c ∈ s, isWhite c = false) : strip s = s := by
  have hdrop : s.dropWhile isWhite = s :=
    List.dropWhile_eq_self_iff.2 fun hpos => by simp [hs _ (List.getElem_mem hpos)]
  rw [strip, hdrop]
  exact List.rdropWhile_eq_self_iff.2 fun hne => by simp [hs _ (List.getLast_mem hne)]

/-! ## What is not blank -/

/-- The number of code points that are no blanks. -/
def inked (s : Str) : ℕ := s.countP fun c => !isWhite c

@[simp] theorem inked_append (s t : Str) : inked (s ++ t) = inked s + inked t := List.countP_append

theorem inked_eq_zero {s : Str} : inked s = 0 ↔ IsBlank s := by
  simp [inked, IsBlank, List.countP_eq_zero]

theorem inked_dropWhile (s : Str) : inked (s.dropWhile isWhite) = inked s := by
  induction s with
  | nil => rfl
  | cons c s ih =>
    rw [List.dropWhile_cons]
    split
    · next hc => simpa [inked, hc] using ih
    · rfl

@[simp] theorem inked_strip (s : Str) : inked (strip s) = inked s := by
  have hreverse : ∀ t : Str, inked t.reverse = inked t := fun t => List.countP_reverse
  rw [strip, List.rdropWhile, hreverse, inked_dropWhile, hreverse, inked_dropWhile]

/-- No line has more than the text. -/
theorem inked_splitlinesFrom (line : Str) (cr : Bool) (text : Str) :
    ∀ l ∈ splitlinesFrom line cr text, inked l ≤ inked line + inked text := by
  induction text generalizing line cr with
  | nil =>
    rw [splitlinesFrom]
    split
    · simp
    · simp
  | cons c text ih =>
    have hcons : inked (c :: text) = inked [c] + inked text := inked_append [c] text
    rw [splitlinesFrom]
    split
    · exact fun l hl => (ih line false l hl).trans (by omega)
    · split
      · refine List.forall_mem_cons.2 ⟨by omega, fun l hl => (ih [] _ l hl).trans ?_⟩
        simp only [inked, List.countP_nil] at hcons ⊢
        omega
      · intro l hl
        refine (ih (line ++ [c]) false l hl).trans ?_
        rw [inked_append]
        omega

end EnvFile

end Mtrtk
