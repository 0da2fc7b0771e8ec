import Mathlib.Data.List.Infix
import Mathlib.Tactic.Common

/-!
# Incremental scanners

A scanner looks at the head of the input it holds and either waits for more or
consumes a prefix with an event (`Scanner.head`). `Scanner.scan` repeats that until
the head waits; `Scanner.resume` appends a piece of input and goes on, and a stream
cut into pieces is `List.foldl` of it.

`Scanner.foldl_resume_eq_scan` : when no decision on a prefix is changed by what
follows it, the pieces do not matter. The hypothesis is asked only at the buffers the
scan visits (`Scanner.Visits`), so a scanner that is unstable somewhere can still be
used where it does not come to that.

`Scanner.Trace` is what holds however the stream is cut : the consumed prefixes and
the rest are the stream, and every event was decided at its own place in it.
-/

namespace Mtrtk

variable {α ε : Type*}

/-- A decision at the head of a buffer : `none` waits, `some (n, e)` consumes `n`
elements with the event `e`. It never consumes nothing, nor more than there is. -/
structure Scanner (α ε : Type*) where
  head : List α → Option (ℕ × ε)
  pos : ∀ {b n e}, head b = some (n, e) → 0 < n
  le : ∀ {b n e}, head b = some (n, e) → n ≤ b.length

/-- The input a list of events consumed. -/
def consumed (evs : List (List α × ε)) : List α := (evs.map Prod.fst).flatten

@[simp] theorem consumed_nil : consumed ([] : List (List α × ε)) = [] := rfl

@[simp] theorem consumed_cons (x : List α × ε) (evs : List (List α × ε)) :
    consumed (x :: evs) = x.1 ++ consumed evs := rfl

@[simp] theorem consumed_append (evs evs' : List (List α × ε)) :
    consumed (evs ++ evs') = consumed evs ++ consumed evs' := by
  simp [consumed]

namespace Scanner

variable (S : Scanner α ε)

theorem head_nil : S.head [] = none := by
  cases h : S.head [] with
  | none => rfl
  | some r =>
    have := S.pos h
    have := S.le h
    simp at this
    omega

/-! ## Scanning what is held -/

/-- At most `k` decisions on the buffer `b` : the events with what each consumed, and
what is left. -/
def scanFuel : ℕ → List α → List (List α × ε) × List α
  | 0, b => ([], b)
  | k + 1, b =>
    match S.head b with
    | none => ([], b)
    | some (n, e) => ((b.take n, e) :: (scanFuel k (b.drop n)).1, (scanFuel k (b.drop n)).2)

/-- Decide until the head waits. Every decision consumes, so `b.length` of them are enough. -/
def scan (b : List α) : List (List α × ε) × List α := S.scanFuel b.length b

theorem scanFuel_eq_scan : ∀ (k : ℕ) (b : List α), b.length ≤ k → S.scanFuel k b = S.scan b := by
  have key : ∀ (k k' : ℕ) (b : List α), b.length ≤ k → b.length ≤ k' →
      S.scanFuel k b = S.scanFuel k' b := by
    intro k
    induction k with
    | zero =>
      intro k' b hk _
      obtain rfl : b = [] := List.length_eq_zero_iff.1 (by omega)
      cases k' <;> simp [scanFuel, S.head_nil]
    | succ k ih =>
      intro k' b hk hk'
      cases k' with
      | zero =>
        obtain rfl : b = [] := List.length_eq_zero_iff.1 (by omega)
        simp [scanFuel, S.head_nil]
      | succ k' =>
        cases h : S.head b with
        | none => simp [scanFuel, h]
        | some r =>
          have hpos := S.pos h
          have hlen : (b.drop r.1).length = b.length - r.1 := List.length_drop
          have hrec := ih k' (b.drop r.1) (by omega) (by omega)
          simp only [scanFuel, h, hrec]
  exact fun k b hk => key k b.length b hk le_rfl

theorem scan_of_none {b : List α} (h : S.head b = none) : S.scan b = ([], b) := by
  unfold scan
  cases b.length <;> simp [scanFuel, h]

theorem scan_of_some {b : List α} {n : ℕ} {e : ε} (h : S.head b = some (n, e)) :
    S.scan b = ((b.take n, e) :: (S.scan (b.drop n)).1, (S.scan (b.drop n)).2) := by
  have hpos := S.pos h
  have hle := S.le h
  obtain ⟨k, hk⟩ : ∃ k, b.length = k + 1 := ⟨b.length - 1, by omega⟩
  have hrec := S.scanFuel_eq_scan k (b.drop n) (by rw [List.length_drop]; omega)
  conv_lhs => unfold scan
  rw [hk]
  simp only [scanFuel, h, hrec]

/-- Induction along the decisions of a scan. -/
theorem scan_induction {P : List α → Prop} (wait : ∀ b, S.head b = none → P b)
    (move : ∀ b n e, S.head b = some (n, e) → P (b.drop n) → P b) : ∀ b, P b := by
  intro b
  induction hn : b.length using Nat.strong_induction_on generalizing b with
  | _ n ih =>
    cases h : S.head b with
    | none => exact wait b h
    | some r =>
      have hpos := S.pos h
      have hle := S.le h
      refine move b r.1 r.2 h (ih _ ?_ _ rfl)
      rw [List.length_drop]
      omega

/-- What a scan leaves is a buffer that waits. -/
theorem head_scan_rest (b : List α) : S.head (S.scan b).2 = none := by
  induction b using S.scan_induction with
  | wait b h => rwa [S.scan_of_none h]
  | move b n e h ih => rwa [S.scan_of_some h]

/-- What follows some of a scan's events is the scan of the input they left. -/
theorem scan_drop : ∀ (E E' : List (List α × ε)) {b rest : List α}, S.scan b = (E ++ E', rest) →
    S.scan (b.drop (consumed E).length) = (E', rest)
  | [], E', b, rest, h => by simpa using h
  | (c, e) :: E, E', b, rest, h => by
    cases hb : S.head b with
    | none => simp [S.scan_of_none hb] at h
    | some r =>
      obtain ⟨n, e'⟩ := r
      have hle := S.le hb
      rw [S.scan_of_some hb] at h
      simp only [List.cons_append, Prod.mk.injEq, List.cons.injEq] at h
      obtain ⟨⟨⟨rfl, rfl⟩, hE⟩, hrest⟩ := h
      have := scan_drop E E' (show S.scan (b.drop n) = (E ++ E', rest) from Prod.ext hE hrest)
      rw [List.drop_drop] at this
      simpa [hle] using this

/-! ## Pieces -/

/-- Append the piece `u` to what is held and go on scanning. -/
def resume (r : List (List α × ε) × List α) (u : List α) : List (List α × ε) × List α :=
  (r.1 ++ (S.scan (r.2 ++ u)).1, (S.scan (r.2 ++ u)).2)

/-- The buffers at which the scan of a buffer takes its decisions. -/
inductive Visits : List α → List α → Prop
  | here (b : List α) : Visits b b
  | next {t b : List α} {n : ℕ} {e : ε} (h : S.head t = some (n, e)) (hv : Visits (t.drop n) b) :
      Visits t b

variable {S}

theorem Visits.suffix {t b : List α} (h : S.Visits t b) : b <:+ t := by
  induction h with
  | here b => exact List.suffix_rfl
  | next _ _ ih => exact ih.trans (List.drop_suffix _ _)

/-- A visited buffer is the whole one or shorter. -/
theorem Visits.eq_or_lt {t b : List α} (h : S.Visits t b) : b = t ∨ b.length < t.length := by
  cases h with
  | here => exact Or.inl rfl
  | next h hv =>
    have hpos := S.pos h
    have hle := S.le h
    have := hv.suffix.length_le
    rw [List.length_drop] at this
    exact Or.inr (by omega)

variable (S)

/-- No decision taken on the way through `t` is another one once `u` follows. -/
def SettledBy (t u : List α) : Prop :=
  ∀ b, S.Visits t b → ∀ r, S.head b = some r → S.head (b ++ u) = some r

/-- Up to the first buffer whose decision `u` changes, the scans of `t` and of `t ++ u`
agree. -/
theorem exists_first_unsettled {t u : List α} (h : ¬S.SettledBy t u) :
    ∃ evs b r, S.head b = some r ∧ S.head (b ++ u) ≠ some r ∧ S.Visits t b ∧
      S.scan t = (evs ++ (S.scan b).1, (S.scan b).2) ∧
      S.scan (t ++ u) = (evs ++ (S.scan (b ++ u)).1, (S.scan (b ++ u)).2) := by
  simp only [SettledBy, not_forall] at h
  obtain ⟨b, hv, r, hr, hne⟩ := h
  induction hv with
  | here b => exact ⟨[], b, r, hr, hne, .here b, rfl, rfl⟩
  | @next t b n e ht hv ih =>
    by_cases htu : S.head (t ++ u) = some (n, e)
    · obtain ⟨evs, b', r', hr', hne', hv', h₁, h₂⟩ := ih hr hne
      have hle := S.le ht
      refine ⟨(t.take n, e) :: evs, b', r', hr', hne', .next ht hv', ?_, ?_⟩
      · rw [S.scan_of_some ht, h₁]
        rfl
      · rw [S.scan_of_some htu, List.drop_append_of_le_length hle,
          List.take_append_of_le_length hle, h₂]
        rfl
    · exact ⟨[], t, (n, e), ht, htu, .here t, rfl, rfl⟩

theorem resume_scan {t u : List α} (h : S.SettledBy t u) :
    S.resume (S.scan t) u = S.scan (t ++ u) := by
  induction t using S.scan_induction with
  | wait b hb => simp [resume, S.scan_of_none hb]
  | move b n e hb ih =>
    have hle := S.le hb
    have hbu : S.head (b ++ u) = some (n, e) := h b (.here b) _ hb
    have hrec := ih fun c hc => h c (.next hb hc)
    rw [S.scan_of_some hb, S.scan_of_some hbu, List.drop_append_of_le_length hle,
      List.take_append_of_le_length hle, ← hrec]
    simp [resume]

/-- A stream whose cuts are all settled is scanned the same however it is cut. -/
theorem foldl_resume_eq_scan (ps : List (List α))
    (h : ∀ t u v, ps.flatten = t ++ u ++ v → S.SettledBy t u) :
    ps.foldl S.resume ([], []) = S.scan ps.flatten := by
  induction ps using List.reverseRecOn with
  | nil => simp [S.scan_of_none S.head_nil]
  | append_singleton ps p ih =>
    have hps : ps.foldl S.resume ([], []) = S.scan ps.flatten :=
      ih fun t u v htu => h t u (v ++ p) (by simp [htu])
    rw [List.foldl_append, hps, List.flatten_append]
    simpa using S.resume_scan (h ps.flatten p [] (by simp))

/-- No piece makes what is held longer than `M`. -/
def Fits (M : ℕ) : List (List α × ε) × List α → List (List α) → Prop
  | _, [] => True
  | r, p :: ps => r.2.length + p.length ≤ M ∧ Fits M (S.resume r p) ps

theorem fits_append {M : ℕ} : ∀ (ps qs : List (List α)) (r : List (List α × ε) × List α),
    S.Fits M r (ps ++ qs) ↔ S.Fits M r ps ∧ S.Fits M (ps.foldl S.resume r) qs
  | [], qs, r => by simp [Fits]
  | p :: ps, qs, r => by
    simp only [List.cons_append, Fits, List.foldl_cons, fits_append ps qs, and_assoc]

theorem resume_nil {r : List (List α × ε) × List α} (h : S.head r.2 = none) :
    S.resume r [] = r := by
  simp [resume, S.scan_of_none h]

theorem resume_append (r : List (List α × ε) × List α) {u v : List α}
    (h : S.SettledBy (r.2 ++ u) v) : S.resume (S.resume r u) v = S.resume r (u ++ v) := by
  have hscan := S.resume_scan h
  rw [List.append_assoc] at hscan
  simp only [resume, ← hscan, List.append_assoc]

/-- Where a short settled cut can always be found, any input can be fed in pieces that
fit and scan as the input at once. -/
theorem exists_pieces {M L m : ℕ} (hM : L + m ≤ M)
    (hwait : ∀ b, S.head b = none → b.length ≤ L)
    (hcut : ∀ b u : List α, u ≠ [] →
      ∃ k, 0 < k ∧ k ≤ m ∧ S.SettledBy (b ++ u.take k) (u.drop k)) :
    ∀ (u : List α) (r : List (List α × ε) × List α), S.head r.2 = none →
      ∃ ps, ps.flatten = u ∧ S.Fits M r ps ∧ ps.foldl S.resume r = S.resume r u := by
  intro u
  induction hn : u.length using Nat.strong_induction_on generalizing u with
  | _ n ih =>
    intro r hr
    by_cases hu : u = []
    · exact ⟨[], by simp [hu], trivial, by rw [hu, S.resume_nil hr]; rfl⟩
    · obtain ⟨k, hk, hkm, hset⟩ := hcut r.2 u hu
      have hpos := List.length_pos_of_ne_nil hu
      obtain ⟨ps, hps, hfit, hfold⟩ := ih (u.drop k).length (by rw [List.length_drop]; omega)
        (u.drop k) rfl (S.resume r (u.take k)) (S.head_scan_rest _)
      refine ⟨u.take k :: ps, by simp [hps], ⟨?_, hfit⟩, ?_⟩
      · have := hwait r.2 hr
        have := List.length_take_le k u
        omega
      · rw [List.foldl_cons, hfold, S.resume_append r hset, List.take_append_drop]

/-! ## What holds however the stream is cut -/

/-- `r` is a scan of the stream `s` so far : nothing is lost, every event was decided at
its own place, and the rest waits. -/
structure Trace (s : List α) (r : List (List α × ε) × List α) : Prop where
  conserved : consumed r.1 ++ r.2 = s
  decided : ∀ E₁ c e E₂, r.1 = E₁ ++ (c, e) :: E₂ →
    ∃ b v, consumed E₁ ++ (b ++ v) = s ∧ S.head b = some (c.length, e) ∧ c = b.take c.length
  waits : S.head r.2 = none

theorem trace_nil : S.Trace [] ([], []) where
  conserved := rfl
  decided _ _ _ _ h := by simp at h
  waits := S.head_nil

theorem trace_scan (b : List α) : S.Trace b (S.scan b) := by
  induction b using S.scan_induction with
  | wait b h =>
    rw [S.scan_of_none h]
    exact ⟨rfl, fun _ _ _ _ h' => by simp at h', h⟩
  | move b n e h ih =>
    have hle := S.le h
    rw [S.scan_of_some h]
    refine ⟨by simp [ih.conserved], ?_, ih.waits⟩
    rintro (_ | ⟨x, E₁⟩) c e' E₂ hE
    · simp only [List.nil_append, List.cons.injEq, Prod.mk.injEq] at hE
      obtain ⟨⟨rfl, rfl⟩, -⟩ := hE
      exact ⟨b, [], by simp, by simpa [hle] using h, by simp⟩
    · simp only [List.cons_append, List.cons.injEq] at hE
      obtain ⟨rfl, hE⟩ := hE
      obtain ⟨b', v, hs, hb', hc⟩ := ih.decided E₁ c e' E₂ hE
      exact ⟨b', v, by simp [hs], hb', hc⟩

variable {S}

theorem Trace.resume {s : List α} {r : List (List α × ε) × List α} (h : S.Trace s r)
    (u : List α) : S.Trace (s ++ u) (S.resume r u) := by
  have hu := S.trace_scan (r.2 ++ u)
  refine ⟨?_, ?_, hu.waits⟩
  · rw [Scanner.resume, consumed_append, List.append_assoc, hu.conserved, ← List.append_assoc,
      h.conserved]
  · intro E₁ c e E₂ hE
    rcases List.append_eq_append_iff.1 hE with ⟨D, rfl, hD⟩ | ⟨D, hD, hE₂⟩
    · obtain ⟨b, v, hs, hb, hc⟩ := hu.decided D c e E₂ hD
      refine ⟨b, v, ?_, hb, hc⟩
      rw [consumed_append, List.append_assoc, hs, ← List.append_assoc, h.conserved]
    · rcases D with _ | ⟨x, D⟩
      · obtain ⟨b, v, hs, hb, hc⟩ := hu.decided [] c e E₂ (by simpa using hE₂.symm)
        have hr : r.1 = E₁ := by simpa using hD
        refine ⟨b, v, ?_, hb, hc⟩
        rw [← hr, ← h.conserved, List.append_assoc]
        simpa using hs
      · obtain ⟨rfl, -⟩ := List.cons.inj hE₂
        obtain ⟨b, v, hs, hb, hc⟩ := h.decided E₁ c e D hD
        exact ⟨b, v ++ u, by rw [← hs]; simp, hb, hc⟩

theorem trace_foldl (ps : List (List α)) : S.Trace ps.flatten (ps.foldl S.resume ([], [])) := by
  induction ps using List.reverseRecOn with
  | nil => exact S.trace_nil
  | append_singleton ps p ih =>
    rw [List.foldl_append, List.flatten_append]
    simpa using ih.resume p

/-- The event that consumed position `p`. -/
theorem exists_event_at : ∀ (evs : List (List α × ε)) {p : ℕ}, p < (consumed evs).length →
    ∃ E₁ c e E₂, evs = E₁ ++ (c, e) :: E₂ ∧ (consumed E₁).length ≤ p ∧
      p < (consumed E₁).length + c.length
  | [], p, h => by simp at h
  | (c, e) :: evs, p, h => by
    rcases Nat.lt_or_ge p c.length with hp | hp
    · exact ⟨[], c, e, evs, rfl, by simp, by simpa using hp⟩
    · obtain ⟨E₁, c', e', E₂, rfl, h₁, h₂⟩ :=
        exists_event_at evs (p := p - c.length) (by simp at h; omega)
      refine ⟨(c, e) :: E₁, c', e', E₂, rfl, ?_, ?_⟩ <;> simp <;> omega

/-! ## Decisions that stay -/

/-- No decision is another one once more input follows. -/
def Stable (S : Scanner α ε) : Prop :=
  ∀ b u r, S.head b = some r → S.head (b ++ u) = some r

/-- The pieces of a stream never matter to a stable scanner. -/
theorem Stable.foldl_resume (h : S.Stable) (ps : List (List α)) :
    ps.foldl S.resume ([], []) = S.scan ps.flatten :=
  S.foldl_resume_eq_scan ps fun _ u _ _ b _ r hr => h b u r hr

/-- Inputs that are each decided as a whole, one after the other, are the events. -/
theorem Stable.scan_consumed (h : S.Stable) : ∀ (evs : List (List α × ε)),
    (∀ x ∈ evs, S.head x.1 = some (x.1.length, x.2)) → S.scan (consumed evs) = (evs, [])
  | [], _ => S.scan_of_none S.head_nil
  | x :: evs, hevs => by
    have hhead : S.head (x.1 ++ consumed evs) = some (x.1.length, x.2) :=
      h _ _ _ (hevs x (by simp))
    rw [consumed_cons, S.scan_of_some hhead, List.take_left, List.drop_left,
      h.scan_consumed evs fun y hy => hevs y (by simp [hy])]

/-- Every event of a scan was decided on all of the input at its place. -/
theorem head_of_scan {b rest : List α} {E₁ E₂ : List (List α × ε)} {c : List α} {e : ε}
    (h : S.scan b = (E₁ ++ (c, e) :: E₂, rest)) :
    S.head (b.drop (consumed E₁).length) = some (c.length, e) ∧
      c = (b.drop (consumed E₁).length).take c.length := by
  have hscan := S.scan_drop E₁ _ h
  set b' := b.drop (consumed E₁).length
  cases hb : S.head b' with
  | none => simp [S.scan_of_none hb] at hscan
  | some r =>
    obtain ⟨n, e'⟩ := r
    have hle := S.le hb
    rw [S.scan_of_some hb] at hscan
    simp only [Prod.mk.injEq, List.cons.injEq] at hscan
    obtain ⟨⟨⟨rfl, rfl⟩, -⟩, -⟩ := hscan
    simp [hle]

end Scanner

end Mtrtk
