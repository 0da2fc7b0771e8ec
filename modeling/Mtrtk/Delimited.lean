import Mtrtk.Run

/-!
# A stream of pieces with a first and a last symbol

A piece begins with `first`, ends with `last`, and has neither inside. `Begun` is a stream of which
the last piece has not ended, `Unspliced` one where no piece begins inside another.

`next` reads a stream symbol by symbol. A stream it reads is `Unspliced` (`unspliced_of_run`), and
it stands inside a piece just where the stream is `Begun` (`begun_iff`). What is read to the end of
a piece can be cut at the beginning of another (`run_from_first`) and behind the first `last`
(`run_from_last`).
-/

namespace Mtrtk

namespace Delimited

variable {α : Type*} (first last : α)

/-- A piece has begun that has not ended. -/
def Begun (l : List α) : Prop := ∃ a b, l = a ++ first :: b ∧ last ∉ b

/-- No piece begins inside another. -/
def Unspliced (l : List α) : Prop := ∀ a b, l = a ++ first :: b → ¬Begun first last a

section Definitions

variable {first last}

theorem Unspliced.of_append {l l' : List α} (h : Unspliced first last (l ++ l')) :
    Unspliced first last l := by
  rintro a b rfl
  exact h a (b ++ l') (by simp)

theorem begun_snoc {l : List α} {c : α} (hne : first ≠ last) :
    Begun first last (l ++ [c]) ↔ c = first ∨ c ≠ last ∧ Begun first last l := by
  constructor
  · rintro ⟨a, b, heq, hb⟩
    rcases List.eq_nil_or_concat b with rfl | ⟨b, d, rfl⟩
    · exact .inl (List.cons.inj (List.append_inj' heq rfl).2).1
    · have hsplit : l ++ [c] = (a ++ first :: b) ++ [d] := by simpa using heq
      obtain ⟨rfl, hd⟩ := List.append_inj' hsplit rfl
      obtain rfl : c = d := (List.cons.inj hd).1
      simp only [List.concat_eq_append, List.mem_append, List.mem_singleton, not_or] at hb
      exact .inr ⟨Ne.symm hb.2, a, b, rfl, hb.1⟩
  · rintro (rfl | ⟨hc, a, b, rfl, hb⟩)
    · exact ⟨l, [], rfl, List.not_mem_nil⟩
    · exact ⟨a, b ++ [c], by simp, by simp [hb, Ne.symm hc]⟩

end Definitions

variable [DecidableEq α]

/-- Whether a reader is inside a piece, after one more symbol. `none` where it is out of place. -/
def next (inside : Bool) (c : α) : Option Bool :=
  if c = first then (if inside then none else some true)
  else if inside then some (c ≠ last) else none

variable {first last} {l : List α} {c : α} {inside t : Bool}

theorem next_first (h : next first last inside first = some t) : inside = false ∧ t = true := by
  cases inside with
  | false => exact ⟨rfl, by simpa [next] using h.symm⟩
  | true => simp [next] at h

theorem next_last (hne : first ≠ last) (h : next first last inside last = some t) :
    t = false := by
  rw [next, if_neg hne.symm] at h
  split at h
  · simpa using h.symm
  · cases h

/-- Outside a piece nothing but the beginning of one is in place. -/
theorem eq_first_of_next (h : next first last false c = some t) : c = first := by
  by_contra hc
  simp [next, hc] at h

theorem run_cons_iff : run (next first last) inside (c :: l) = some t ↔
    ∃ u, next first last inside c = some u ∧ run (next first last) u l = some t :=
  Option.bind_eq_some_iff

theorem run_append_iff {l' : List α} : run (next first last) inside (l ++ l') = some t ↔
    ∃ u, run (next first last) inside l = some u ∧ run (next first last) u l' = some t := by
  rw [run_append]
  exact Option.bind_eq_some_iff

/-- A piece is read from its first symbol to its last. -/
theorem run_piece (hne : first ≠ last) {body : List α} (hfirst : first ∉ body)
    (hlast : last ∉ body) :
    run (next first last) false (first :: (body ++ [last])) = some false := by
  have hbody : run (next first last) true body = some true := by
    induction body with
    | nil => rfl
    | cons c body ih =>
      simp only [List.mem_cons, not_or] at hfirst hlast
      have hc : next first last true c = some true := by
        simp [next, Ne.symm hfirst.1, Ne.symm hlast.1]
      exact run_cons_iff.2 ⟨true, hc, ih hfirst.2 hlast.2⟩
  refine run_cons_iff.2 ⟨true, by simp [next], run_append_iff.2 ⟨true, hbody, ?_⟩⟩
  exact run_cons_iff.2 ⟨false, by simp [next, hne.symm], rfl⟩

/-- Pieces one after the other are read to the end of the last. -/
theorem run_flatMap {β : Type*} {piece : β → List α} {bs : List β}
    (h : ∀ b ∈ bs, run (next first last) false (piece b) = some false) :
    run (next first last) false (bs.flatMap piece) = some false := by
  induction bs with
  | nil => rfl
  | cons b bs ih =>
    obtain ⟨hb, hbs⟩ := List.forall_mem_cons.1 h
    rw [List.flatMap_cons]
    exact run_append_iff.2 ⟨false, hb, ih hbs⟩

/-- A reader is inside a piece just where one has begun that has not ended. -/
theorem begun_iff (hne : first ≠ last) (h : run (next first last) false l = some t) :
    Begun first last l ↔ t = true := by
  induction l using List.reverseRecOn generalizing t with
  | nil =>
    obtain rfl : false = t := Option.some.inj h
    simp [Begun]
  | append_singleton l c ih =>
    obtain ⟨u, hl, hend⟩ := run_append_iff.1 h
    obtain ⟨v, hc, hv⟩ := run_cons_iff.1 hend
    obtain rfl : v = t := Option.some.inj hv
    rw [begun_snoc hne, ih hl]
    by_cases hfirst : c = first
    · subst hfirst
      simp [(next_first hc).2]
    · simp only [next, if_neg hfirst] at hc
      cases u with
      | false => simp at hc
      | true => simp [hfirst, ← Option.some.inj hc]

theorem unspliced_of_run (hne : first ≠ last) (h : run (next first last) false l = some t) :
    Unspliced first last l := by
  rintro a b rfl hbegun
  obtain ⟨u, ha, hb⟩ := run_append_iff.1 h
  obtain ⟨v, hv, -⟩ := run_cons_iff.1 hb
  have hu : u = true := (begun_iff hne ha).1 hbegun
  rw [(next_first hv).1] at hu
  cases hu

/-- What begins with a piece is read from outside one. -/
theorem run_from_first {a b : List α}
    (h : run (next first last) inside (a ++ first :: b) = some t) :
    run (next first last) false (first :: b) = some t := by
  obtain ⟨u, -, hb⟩ := run_append_iff.1 h
  obtain ⟨v, hv, -⟩ := run_cons_iff.1 hb
  rwa [← (next_first hv).1]

/-- Behind the end of a piece a reader is outside. -/
theorem run_from_last (hne : first ≠ last) {a b : List α}
    (h : run (next first last) inside (a ++ last :: b) = some t) :
    run (next first last) false b = some t := by
  obtain ⟨u, -, hb⟩ := run_append_iff.1 h
  obtain ⟨v, hv, hb⟩ := run_cons_iff.1 hb
  rwa [← next_last hne hv]

end Delimited

end Mtrtk
