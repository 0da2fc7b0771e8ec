import Mtrtk.FrameScan

/-!
# Feeding in any chunking

`Framer` promises the same frames for any chunking of a stream. `_try_nmea` breaks the
promise : it looks for the CR LF among the first 258 bytes after `$`, but gives up on a
buffer of 256. A sentence of 257 or 258 bytes is a frame when its last bytes arrive with
the piece before them, and garbage when a cut falls on its CR LF.

`Framer.feedAll_same_iff` is the exact condition. A stream gives the same frames, stats
and leftover for every two ways of cutting it if and only if no cut leaves an `Overlong`
sentence at the head of the buffer (`CutsCleanly`). The cuts that show a difference are
built with `Scanner.exists_pieces` : within three bytes of any place in a stream there is
a cut no later byte makes a difference to (`exists_settled_cut`).
-/

namespace Mtrtk

/-! ## Sentences cut short -/

/-- The buffer `b` holds the first 256 or 257 bytes of a `$` sentence without its CR LF,
`u` brings the CR LF, and the sentence has a checksum field : what `_try_nmea` rejects on
`b` it would emit, or count as a checksum error, on `b ++ u`. -/
def Overlong (b u : List UInt8) : Prop :=
  Stump b ∧ ∃ stop, nmeaEnd (b ++ u) = some stop ∧ nmeaSentence (b ++ u) stop ≠ .reject false

/-- No cut of the stream leaves an overlong sentence at the head of the buffer. -/
def CutsCleanly (s : List UInt8) : Prop :=
  ∀ t u, s = t ++ u → ∀ b, coreScanner.Visits t b → ¬Overlong b u

theorem Overlong.append {b u : List UInt8} (h : Overlong b u) (v : List UInt8) :
    Overlong b (u ++ v) := by
  obtain ⟨hst, stop, he, hne⟩ := h
  have := nmeaEnd_le he
  refine ⟨hst, stop, ?_, ?_⟩ <;> rw [← List.append_assoc]
  · exact nmeaEnd_append v he
  · rwa [nmeaSentence_append v (by omega)]

theorem Overlong.length_le {b u : List UInt8} (h : Overlong b u) {stop : ℕ}
    (he : nmeaEnd (b ++ u) = some stop) : b.length ≤ stop + 1 := by
  by_contra hlt
  have := nmeaEnd_of_append he (by omega)
  rw [h.1.2.2.2] at this
  simp at this

/-- A decision that more bytes change is one about an overlong sentence. -/
theorem overlong_of_unsettled {b u : List UInt8} {r : ℕ × FramerEvent} (hr : coreHead b = some r)
    (hne : coreHead (b ++ u) ≠ some r) : Overlong b u := by
  have hst : Stump b := by
    by_contra hst
    exact hne (coreHead_append u hr hst)
  obtain rfl : (1, FramerEvent.rejected false) = r := by simpa [hst.coreHead] using hr
  have h0 := hst.byteAt_append u
  have hsync : Mtrtk.isSync (byteAt (b ++ u) 0) = true := by rw [h0]; rfl
  have hne' : b ++ u ≠ [] := by simp [hst.ne_nil]
  refine ⟨hst, ?_⟩
  cases he : nmeaEnd (b ++ u) with
  | none =>
    refine (hne (coreHead_reject hne' hsync ?_)).elim
    rw [nmeaEnd] at he
    rw [attempt_nmea h0, tryNmea, he]
    refine if_neg ?_
    have := hst.2.1
    rw [List.length_append]
    omega
  | some stop =>
    refine ⟨stop, rfl, fun hrej => hne (coreHead_reject hne' hsync ?_)⟩
    rw [attempt_nmea h0, tryNmea_of_some he, hrej]

/-- More bytes do change the decision about an overlong sentence. -/
theorem Overlong.unsettled {b u : List UInt8} (h : Overlong b u) :
    coreScanner.head (b ++ u) ≠ some (1, .rejected false) := by
  obtain ⟨hst, stop, he, hne⟩ := h
  have h0 := hst.byteAt_append u
  have hatt : attempt (b ++ u) = nmeaSentence (b ++ u) stop := by
    rw [attempt_nmea h0, tryNmea_of_some he]
  intro hhead
  obtain ⟨-, ⟨hs, -⟩ | ⟨ck, -, ha, -, hck⟩ | ⟨p, -, -, hp⟩⟩ := coreHead_cases hhead
  · rw [h0] at hs
    exact absurd hs (by decide)
  · obtain rfl : false = ck := by simpa using hck
    exact hne (by rw [← hatt, ha])
  · simp at hp

theorem settledBy_of_cutsCleanly {s t u v : List UInt8} (h : CutsCleanly s) (hs : s = t ++ u ++ v) :
    coreScanner.SettledBy t u := by
  intro b hv r hr
  by_contra hne
  exact h t (u ++ v) (by simp [hs]) b hv ((overlong_of_unsettled hr hne).append v)

/-- Short of 256 bytes nothing is overlong. -/
theorem cutsCleanly_of_length {s : List UInt8} (h : s.length < nmeaMaxLen) : CutsCleanly s := by
  rintro t u rfl b hv ⟨hst, -⟩
  have := hv.suffix.length_le
  have := hst.2.1
  rw [List.length_append] at h
  omega

/-! ## A settled cut is always near -/

theorem settledBy_of_cut {y v : List UInt8} (h₁ : ∀ v', v ≠ 0x0D :: 0x0A :: v')
    (h₂ : y.getLast? = some 0x0D → v.head? ≠ some 0x0A) : coreScanner.SettledBy y v := by
  intro b hv r hr
  by_contra hne
  have hover := overlong_of_unsettled hr hne
  obtain ⟨stop, he, -⟩ := hover.2
  have hle := hover.length_le he
  have hmax := (nmeaEnd_le he).2
  have hb : b ≠ [] := hover.1.ne_nil
  obtain ⟨-, hlen, hlt, -⟩ := hover.1
  obtain ⟨hcr, hlf⟩ := nmeaEnd_getElem he
  obtain ⟨pre, rfl⟩ := hv.suffix
  rcases Nat.lt_or_ge stop b.length with hs | hs
  · obtain rfl : stop = b.length - 1 := by omega
    rw [List.getElem?_append_left hs] at hcr
    rw [List.getElem?_append_right (by omega), show b.length - 1 + 1 - b.length = 0 by omega] at hlf
    refine h₂ ?_ (by rw [List.head?_eq_getElem?, hlf])
    rw [List.getLast?_append_of_ne_nil _ hb, List.getLast?_eq_getElem?, hcr]
  · obtain rfl : stop = b.length := by omega
    rw [List.getElem?_append_right (by omega), Nat.sub_self] at hcr
    rw [List.getElem?_append_right (by omega), Nat.add_sub_cancel_left] at hlf
    match v, hcr, hlf with
    | a :: c :: v', hcr, hlf =>
      simp only [List.getElem?_cons_zero, List.getElem?_cons_succ, Option.some.injEq] at hcr hlf
      exact h₁ v' (by rw [hcr, hlf])
    | [a], _, hlf => simp at hlf
    | [], hcr, _ => simp at hcr

theorem settledBy_after_crlf (y v : List UInt8) : coreScanner.SettledBy (y ++ [0x0D, 0x0A]) v := by
  intro b hv r hr
  by_contra hne
  obtain ⟨⟨-, hlen, hlt, hend⟩, -⟩ := overlong_of_unsettled hr hne
  have hmax : nmeaMaxLen = 256 := rfl
  have hsuf : [0x0D, 0x0A] <:+ b :=
    List.suffix_of_suffix_length_le (List.suffix_append _ _) hv.suffix (by simp; omega)
  obtain ⟨pre, rfl⟩ := hsuf
  obtain ⟨i, -, hi⟩ := findCrlf_of_getElem (l := pre ++ [0x0D, 0x0A]) (j := pre.length)
    (by simp) (by simp)
  rw [nmeaEnd, List.take_of_length_le (by omega), hi] at hend
  simp at hend

theorem exists_settled_cut (b u : List UInt8) (hu : u ≠ []) :
    ∃ k, 0 < k ∧ k ≤ 3 ∧ coreScanner.SettledBy (b ++ u.take k) (u.drop k) := by
  obtain ⟨a, v, rfl⟩ := List.exists_cons_of_ne_nil hu
  by_cases h₁ : ∃ v', v = 0x0D :: 0x0A :: v'
  · obtain ⟨v', rfl⟩ := h₁
    refine ⟨3, by omega, le_rfl, ?_⟩
    have := settledBy_after_crlf (b ++ [a]) v'
    simpa using this
  by_cases h₂ : a = 0x0D ∧ v.head? = some 0x0A
  · obtain ⟨rfl, hv⟩ := h₂
    obtain ⟨v', rfl⟩ := List.head?_eq_some_iff.1 hv
    exact ⟨2, by omega, by omega, by simpa using settledBy_after_crlf b v'⟩
  · refine ⟨1, by omega, by omega, settledBy_of_cut (fun v' hv => h₁ ⟨v', hv⟩) fun hl hh => ?_⟩
    exact h₂ ⟨by simpa using hl, hh⟩

/-! ## What a bad cut changes -/

/-- The checksum errors among the events. -/
def errorsOf (evs : List (List UInt8 × FramerEvent)) : ℕ :=
  evs.countP fun x => x.2 = .rejected true

theorem tally_checksumErrors (evs : List (List UInt8 × FramerEvent)) : ∀ st : FramerStats,
    (st.tally evs).checksumErrors = st.checksumErrors + errorsOf evs := by
  induction evs with
  | nil => intro st; rfl
  | cons x evs ih =>
    intro st
    obtain ⟨c, e⟩ := x
    have h := ih (st.record (c, e))
    simp only [FramerStats.tally, List.foldl_cons] at h ⊢
    rw [h]
    rcases e with _ | ck | p
    · simp [FramerStats.record, FramerStats.garbage, errorsOf]
    · cases ck <;>
        simp [FramerStats.record, FramerStats.garbage, FramerStats.checksum, errorsOf]
      omega
    · cases p <;> simp [FramerStats.record, FramerStats.count, errorsOf]

theorem length_of_framesOf_nil {r : List (List UInt8 × FramerEvent) × List UInt8} {s : List UInt8}
    (h : coreScanner.Trace s r) : ∀ E E', r.1 = E ++ E' → framesOf E = [] →
      ∀ x ∈ E, x.1.length = 1 := by
  rintro E E' hE hf ⟨c, e⟩ hx
  obtain ⟨E₁, E₂, rfl⟩ := List.append_of_mem hx
  obtain ⟨b, v, -, hb, -⟩ := h.decided E₁ c e (E₂ ++ E') (by simp [hE])
  obtain ⟨-, ⟨-, hn, -⟩ | ⟨ck, -, -, hn, -⟩ | ⟨p, -, -, rfl⟩⟩ := coreHead_cases hb
  · exact hn
  · exact hn
  · simp [framesOf] at hf

theorem length_consumed {evs : List (List UInt8 × FramerEvent)} (h : ∀ x ∈ evs, x.1.length = 1) :
    (consumed evs).length = evs.length := by
  induction evs with
  | nil => rfl
  | cons x evs ih =>
    rw [consumed_cons, List.length_append, h x (by simp), ih fun y hy => h y (by simp [hy])]
    simp
    omega

/-- The first frame after a rejected start of a sentence is not that sentence. It can be
equal to it only beyond its end. -/
theorem sentence_position {w X v : List UInt8} {stop q : ℕ} (hw : nmeaEnd w = some stop)
    (hX : X = w.take (stop + 2)) (h0 : byteAt w 0 = nmeaStart) (hq : 0 < q)
    (hv : w.drop q = X ++ v) : stop + 2 ≤ q := by
  obtain ⟨hcr, hlf⟩ := nmeaEnd_getElem hw
  have hle := nmeaEnd_le hw
  have hXlen : X.length = stop + 2 := by rw [hX, List.length_take]; omega
  have hget : ∀ i, i < stop + 2 → w[q + i]? = w[i]? := by
    intro i hi
    rw [← List.getElem?_drop, hv, List.getElem?_append_left (by omega), hX,
      List.getElem?_take_of_lt hi]
  by_contra hlt
  rcases Nat.lt_or_ge stop q with hs | hs
  · obtain rfl : q = stop + 1 := by omega
    have h := hget 0 (by omega)
    rw [Nat.add_zero, hlf] at h
    rw [byteAt, List.getD_eq_getElem?_getD, ← h] at h0
    exact absurd h0 (by decide)
  · have h₁ := hget (stop - q) (by omega)
    have h₂ := hget (stop - q + 1) (by omega)
    rw [show q + (stop - q) = stop by omega, hcr] at h₁
    rw [show q + (stop - q + 1) = stop + 1 by omega, hlf] at h₂
    rw [nmeaEnd] at hw
    obtain ⟨i, hi, hf⟩ := findCrlf_of_getElem (l := w.take (nmeaMaxLen + 2)) (j := stop - q)
      (by rw [List.getElem?_take_of_lt (by omega), ← h₁])
      (by rw [List.getElem?_take_of_lt (by omega), ← h₂])
    rw [hw] at hf
    obtain rfl : stop = i := by simpa using hf
    omega

theorem framesOf_eq_cons : ∀ {evs : List (List UInt8 × FramerEvent)} {f : Frame} {fs : List Frame},
    framesOf evs = f :: fs → ∃ E₁ E₂, evs = E₁ ++ (f.raw, .frame f.proto) :: E₂ ∧
      framesOf E₁ = [] ∧ framesOf E₂ = fs
  | [], _, _, h => by simp [framesOf] at h
  | (c, .garbage) :: evs, _, _, h => by
    obtain ⟨E₁, E₂, rfl, h₁, h₂⟩ := framesOf_eq_cons (show framesOf evs = _ from h)
    exact ⟨(c, .garbage) :: E₁, E₂, rfl, by simpa [framesOf] using h₁, h₂⟩
  | (c, .rejected ck) :: evs, _, _, h => by
    obtain ⟨E₁, E₂, rfl, h₁, h₂⟩ := framesOf_eq_cons (show framesOf evs = _ from h)
    exact ⟨(c, .rejected ck) :: E₁, E₂, rfl, by simpa [framesOf] using h₁, h₂⟩
  | (c, .frame p) :: evs, f, fs, h => by
    have h' : (⟨p, c⟩ : Frame) :: framesOf evs = f :: fs := h
    obtain ⟨rfl, rfl⟩ := List.cons.inj h'
    exact ⟨[], evs, rfl, rfl, rfl⟩

/-- The events of a buffer cut after an overlong sentence : its first byte is rejected. -/
theorem resume_of_overlong {b u : List UInt8} (h : Overlong b u) :
    coreScanner.resume (coreScanner.scan b) u =
      ((b.take 1, .rejected false) :: (coreScanner.resume (coreScanner.scan (b.drop 1)) u).1,
        (coreScanner.resume (coreScanner.scan (b.drop 1)) u).2) := by
  rw [coreScanner.scan_of_some h.1.coreHead]
  simp [Scanner.resume]

/-- Where the whole sentence is a frame, cutting it changes the frames. -/
theorem framesOf_ne_of_emit {b u : List UInt8} {stop : ℕ} (h : Overlong b u)
    (he : nmeaEnd (b ++ u) = some stop) (ha : attempt (b ++ u) = .emit .nmea (stop + 2)) :
    framesOf (coreScanner.resume (coreScanner.scan b) u).1 ≠
      framesOf (coreScanner.scan (b ++ u)).1 := by
  intro hfr
  have h0 := h.1.byteAt_append u
  have hsync : isSync (byteAt (b ++ u) 0) = true := by rw [h0]; rfl
  have hle := h.length_le he
  have hend := nmeaEnd_le he
  rw [coreScanner.scan_of_some (coreHead_emit hsync ha)] at hfr
  have hfirst : framesOf (coreScanner.resume (coreScanner.scan b) u).1 =
      ⟨.nmea, (b ++ u).take (stop + 2)⟩ ::
        framesOf (coreScanner.scan ((b ++ u).drop (stop + 2))).1 := hfr
  obtain ⟨E₁, E₂, hE, hE₁, hE₂⟩ := framesOf_eq_cons hfirst
  have htr : coreScanner.Trace (b ++ u) (coreScanner.resume (coreScanner.scan b) u) :=
    (coreScanner.trace_scan b).resume u
  have hone := length_of_framesOf_nil htr E₁ _ hE hE₁
  have hq : 0 < (consumed E₁).length := by
    rw [length_consumed hone]
    refine List.length_pos_of_ne_nil ?_
    rintro rfl
    rw [resume_of_overlong h] at hE
    simp at hE
  -- the frame equal to the sentence is another one, after its end
  obtain ⟨b', v, hs, -, hc⟩ := htr.decided E₁ _ _ E₂ hE
  have hpos : stop + 2 ≤ (consumed E₁).length := by
    refine sentence_position he rfl h0 hq (v := b'.drop ((b ++ u).take (stop + 2)).length ++ v) ?_
    have hb' : b' = (b ++ u).take (stop + 2) ++ b'.drop ((b ++ u).take (stop + 2)).length := by
      conv_lhs => rw [← List.take_append_drop ((b ++ u).take (stop + 2)).length b', ← hc]
    have hdrop : (b ++ u).drop (consumed E₁).length = b' ++ v := by
      rw [← hs, List.drop_left]
    rw [hdrop, ← List.append_assoc, ← hb']
  have hcons := (coreScanner.trace_scan b).conserved
  have hclen : (consumed (coreScanner.scan b).1).length ≤ stop + 1 := by
    have := congrArg List.length hcons
    rw [List.length_append] at this
    omega
  -- so the events before it reach the end of the sentence one byte at a time
  rcases List.append_eq_append_iff.1 hE with ⟨D, hD, hE'⟩ | ⟨D, hD, -⟩
  · have hsum := congrArg (fun E => (consumed E).length) hD
    simp only [consumed_append, List.length_append] at hsum
    have honeD : ∀ x ∈ D, x.1.length = 1 := fun x hx => hone x (by simp [hD, hx])
    obtain ⟨F₁, F₂, rfl, hF⟩ : ∃ F₁ F₂, D = F₁ ++ F₂ ∧
        (consumed F₁).length = stop + 2 - (consumed (coreScanner.scan b).1).length := by
      refine ⟨D.take (stop + 2 - (consumed (coreScanner.scan b).1).length), D.drop _,
        (List.take_append_drop _ _).symm, ?_⟩
      have hlenD := length_consumed honeD
      rw [length_consumed fun x hx => honeD x (List.mem_of_mem_take hx), List.length_take]
      omega
    have hscan := coreScanner.scan_drop F₁ (F₂ ++ _ :: E₂)
      (b := (coreScanner.scan b).2 ++ u) (Prod.ext (by rw [hE', List.append_assoc]) rfl)
    have hrest : ((coreScanner.scan b).2 ++ u).drop (consumed F₁).length =
        (b ++ u).drop (stop + 2) := by
      have hskip : (b ++ u).drop (consumed (coreScanner.scan b).1).length =
          (coreScanner.scan b).2 ++ u := by
        have hleft : (consumed (coreScanner.scan b).1 ++ ((coreScanner.scan b).2 ++ u)).drop
            (consumed (coreScanner.scan b).1).length = _ := List.drop_left
        rwa [← List.append_assoc, hcons] at hleft
      rw [← hskip, List.drop_drop, hF]
      congr 1
      omega
    rw [hrest] at hscan
    have hF₂ : framesOf F₂ = [] := by
      rw [hD, framesOf_append, framesOf_append] at hE₁
      exact (List.append_eq_nil_iff.1 (List.append_eq_nil_iff.1 hE₁).2).2
    rw [hscan, framesOf_append, hF₂, List.nil_append] at hE₂
    have hlen : (framesOf E₂).length = (framesOf E₂).length + 1 := congrArg List.length hE₂
    omega
  · have hsum := congrArg (fun E => (consumed E).length) hD
    simp only [consumed_append, List.length_append] at hsum
    omega

/-- Cut on an overlong sentence, the stream has other frames or fewer checksum errors. -/
theorem errorsOf_lt_of_overlong {b u : List UInt8} (h : Overlong b u)
    (hfr : framesOf (coreScanner.resume (coreScanner.scan b) u).1 =
      framesOf (coreScanner.scan (b ++ u)).1) :
    errorsOf (coreScanner.resume (coreScanner.scan b) u).1 <
      errorsOf (coreScanner.scan (b ++ u)).1 := by
  induction hn : b.length using Nat.strong_induction_on generalizing b with
  | _ n ih =>
  have hst := h.1
  obtain ⟨stop, he, hne⟩ := h.2
  have h0 := hst.byteAt_append u
  have hbl : 1 ≤ b.length := List.length_pos_of_ne_nil hst.ne_nil
  have hatt : attempt (b ++ u) = nmeaSentence (b ++ u) stop := by
    rw [attempt_nmea h0, tryNmea_of_some he]
  cases ha : attempt (b ++ u) with
  | wait => exact absurd (hatt.symm.trans ha) (nmeaSentence_ne_wait _ _)
  | emit p n' =>
    obtain ⟨rfl, rfl⟩ := nmeaSentence_emit (hatt.symm.trans ha)
    exact (framesOf_ne_of_emit h he ha hfr).elim
  | reject ck =>
    obtain rfl : ck = true := by
      by_contra hck
      rw [Bool.not_eq_true] at hck
      exact hne (by rw [← hatt, ha, hck])
    -- the next byte is settled, or is another overlong sentence with the same CR LF
    have hcons : b ++ u ≠ [] := by simp [hst.ne_nil]
    rw [coreScanner.scan_of_some (coreHead_reject hcons (by rw [h0]; rfl) ha),
      List.drop_append_of_le_length hbl, resume_of_overlong h] at hfr ⊢
    have hfr' : framesOf (coreScanner.resume (coreScanner.scan (b.drop 1)) u).1 =
        framesOf (coreScanner.scan (b.drop 1 ++ u)).1 := by
      simpa [framesOf] using hfr
    suffices hle : errorsOf (coreScanner.resume (coreScanner.scan (b.drop 1)) u).1 ≤
        errorsOf (coreScanner.scan (b.drop 1 ++ u)).1 by
      rw [errorsOf, errorsOf, List.countP_cons_of_neg (by simp), List.countP_cons_of_pos (by simp)]
      exact Nat.lt_succ_of_le hle
    by_cases hset : coreScanner.SettledBy (b.drop 1) u
    · rw [coreScanner.resume_scan hset]
    · obtain ⟨-, b', r, hr, hr', hv, -⟩ := coreScanner.exists_first_unsettled hset
      have hover := overlong_of_unsettled hr hr'
      have hlen := hover.1.2.1
      have hlt := hst.2.2.1
      have hd : (b.drop 1).length = b.length - 1 := List.length_drop
      obtain rfl | hb' := hv.eq_or_lt
      · exact (ih _ (by omega) hover hfr' rfl).le
      · omega

/-! ## Any chunking -/

/-- Every two ways of cutting the stream that never exceed the buffer limit `M` give a
fresh framer the same frames, stats and leftover. -/
def Framer.SameHoweverCut (M : ℕ) (s : List UInt8) : Prop :=
  ∀ ps qs : List (List UInt8), ps.flatten = s → qs.flatten = s →
    (fresh M).NoOverflow ps → (fresh M).NoOverflow qs →
      (fresh M).feedAll ps = (fresh M).feedAll qs

theorem Framer.sameHoweverCut_of_cutsCleanly {s : List UInt8} (h : CutsCleanly s) (M : ℕ) :
    SameHoweverCut M s := by
  rintro ps qs rfl hqs hps hqs'
  rw [fresh_feedAll hps, fresh_feedAll hqs',
    coreScanner.foldl_resume_eq_scan ps fun t u v => settledBy_of_cutsCleanly h,
    coreScanner.foldl_resume_eq_scan qs fun t u v htu =>
      settledBy_of_cutsCleanly h (hqs ▸ htu), hqs]

/-- Any scan of a stream is also the result of pieces that fit a large enough buffer. -/
theorem exists_feedable {M : ℕ} (hM : ubxMaxPayload + 10 ≤ M)
    {r : List (List UInt8 × FramerEvent) × List UInt8} (hr : coreScanner.head r.2 = none)
    (u : List UInt8) :
    ∃ ps, ps.flatten = u ∧ coreScanner.Fits M r ps ∧
      ps.foldl coreScanner.resume r = coreScanner.resume r u :=
  coreScanner.exists_pieces (L := ubxMaxPayload + 7) (m := 3) hM
    (fun _ hb => Nat.lt_succ_iff.1 (coreHead_none_length hb)) exists_settled_cut u r hr

theorem Framer.cutsCleanly_of_sameHoweverCut {M : ℕ} (hM : ubxMaxPayload + 10 ≤ M)
    {s : List UInt8} (h : SameHoweverCut M s) : CutsCleanly s := by
  rintro t u rfl b₀ hv₀ hover₀
  have hset : ¬coreScanner.SettledBy t u := fun hset =>
    hover₀.unsettled (hset b₀ hv₀ _ hover₀.1.coreHead)
  obtain ⟨evs, b, r, hr, hr', -, ht, htu⟩ := coreScanner.exists_first_unsettled hset
  have hover := overlong_of_unsettled hr hr'
  have hnil : coreScanner.head ([] : List UInt8) = none := coreScanner.head_nil
  -- the pieces of `t`, then those of `u`, against those of the whole
  obtain ⟨ps₁, hps₁, hfit₁, hfold₁⟩ := exists_feedable hM (r := ([], [])) hnil t
  obtain ⟨ps₂, hps₂, hfit₂, hfold₂⟩ :=
    exists_feedable hM (r := coreScanner.scan t) (coreScanner.head_scan_rest t) u
  obtain ⟨qs, hqs, hfit, hfold⟩ := exists_feedable hM (r := ([], [])) hnil (t ++ u)
  have hstart : ∀ w, coreScanner.resume ([], []) w = coreScanner.scan w := fun w => by
    simp [Scanner.resume]
  rw [hstart] at hfold hfold₁
  have hps : (fresh M).NoOverflow (ps₁ ++ ps₂) := by
    rw [fresh_noOverflow_iff, Scanner.fits_append, hfold₁]
    exact ⟨hfit₁, hfit₂⟩
  have hqs' : (fresh M).NoOverflow qs := fresh_noOverflow_iff.2 hfit
  have hsame := h (ps₁ ++ ps₂) qs (by rw [List.flatten_append, hps₁, hps₂]) hqs hps hqs'
  rw [fresh_feedAll hps, fresh_feedAll hqs', List.foldl_append, hfold₁, hfold₂, hfold,
    show coreScanner.resume (coreScanner.scan t) u =
      (evs ++ (coreScanner.resume (coreScanner.scan b) u).1,
        (coreScanner.resume (coreScanner.scan b) u).2) by simp [Scanner.resume, ht], htu] at hsame
  obtain ⟨hframes, hstate⟩ := Prod.ext_iff.1 hsame
  have herrors := congrArg (fun f => f.stats.checksumErrors) hstate
  simp only [absorb, framesOf_append, List.append_cancel_left_eq] at hframes
  simp only [absorb, FramerStats.tally_append, tally_checksumErrors] at herrors
  have := errorsOf_lt_of_overlong hover hframes
  omega

/-- `feed` is independent of the chunking exactly on the streams no cut of which leaves an
overlong sentence. Below 8202 bytes of `max_buffer` the two cuts that differ may overflow. -/
theorem Framer.feedAll_same_iff (M : ℕ) (s : List UInt8) :
    (CutsCleanly s → SameHoweverCut M s) ∧
      (ubxMaxPayload + 10 ≤ M → (SameHoweverCut M s ↔ CutsCleanly s)) :=
  ⟨fun h => sameHoweverCut_of_cutsCleanly h M, fun hM =>
    ⟨cutsCleanly_of_sameHoweverCut hM, fun h => sameHoweverCut_of_cutsCleanly h M⟩⟩

/-- A short sentence with a checksum. -/
def shortSentence : List UInt8 := [0x24, 0x41, 0x2A, 0x34, 0x31, 0x0D, 0x0A]

theorem Framer.feedAll_same_short :
    SameHoweverCut 8202 shortSentence ∧ CutsCleanly shortSentence :=
  have h := (feedAll_same_iff 8202 shortSentence).1 (cutsCleanly_of_length (by decide))
  ⟨h, ((feedAll_same_iff 8202 shortSentence).2 (by decide)).1 h⟩

/-- A sentence of 257 bytes, the 251 data bytes being `A`. -/
def longSentence : List UInt8 :=
  [0x24] ++ List.replicate 251 0x41 ++ [0x2A, 0x34, 0x31, 0x0D, 0x0A]

/-- Cut before its last byte, the sentence is not a frame. -/
theorem Framer.feedAll_long_differs : ¬SameHoweverCut (1 <<< 20) longSentence := by
  intro h
  have hcut := h [longSentence] [longSentence.take 256, longSentence.drop 256] (by simp) (by simp)
    (by simp only [NoOverflow]; decide +kernel) (by simp only [NoOverflow]; decide +kernel)
  have hlen := congrArg (fun r => r.1.length) hcut
  exact absurd hlen (by decide +kernel)

end Mtrtk
