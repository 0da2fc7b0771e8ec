import Mtrtk.Frames

/-!
# The framer's loop as a scan

`coreScanner` takes the framer's decisions one byte of garbage at a time. The source
skips a run of garbage at once (`_next_sync`), which the tally of the events does not
see (`tally_scan_garbage`), so `Framer.feed` without an overflow is one
`Scanner.resume` (`Framer.feed_eq_scan`), and the pieces of a stream are
`List.foldl` of it (`Framer.fresh_feedAll`).

An attempt that does not wait is not changed by later bytes (`tryUbx_append`,
`tryRtcm_append`), but for one case of `tryNmea` : the `$` it gives up on with 256 or
257 bytes and no CR LF among them (`Stump`), although it looks for the CR LF in 258.
-/

namespace Mtrtk

/-! ## Reading a buffer that grows -/

theorem byteAt_append {buf : List UInt8} (c : List UInt8) {i : ℕ} (h : i < buf.length) :
    byteAt (buf ++ c) i = byteAt buf i := by
  simp [byteAt, List.getD_eq_getElem?_getD, List.getElem?_append_left h]

theorem slice_append {buf : List UInt8} (c : List UInt8) (a : ℕ) {b : ℕ} (h : b ≤ buf.length) :
    slice (buf ++ c) a b = slice buf a b := by
  rw [slice, slice, List.take_append_of_le_length h]

theorem ubxLength_append {buf : List UInt8} (c : List UInt8) (h : 6 ≤ buf.length) :
    ubxLength (buf ++ c) = ubxLength buf := by
  rw [ubxLength, ubxLength, byteAt_append c (by omega), byteAt_append c (by omega)]

theorem rtcmLength_append {buf : List UInt8} (c : List UInt8) (h : 3 ≤ buf.length) :
    rtcmLength (buf ++ c) = rtcmLength buf := by
  rw [rtcmLength, rtcmLength, byteAt_append c (by omega), byteAt_append c (by omega)]

theorem rtcmLength_lt (buf : List UInt8) : rtcmLength buf < 1024 := by
  refine Nat.or_lt_two_pow (n := 10) ?_ ?_
  · rw [Nat.shiftLeft_eq]
    have : (byteAt buf 1).toNat &&& 0x03 ≤ 0x03 := Nat.and_le_right
    omega
  · have := (byteAt buf 2).toNat_lt
    omega

theorem tryUbx_append {buf : List UInt8} (c : List UInt8) (h : tryUbx buf ≠ .wait) :
    tryUbx (buf ++ c) = tryUbx buf := by
  unfold tryUbx at h ⊢
  have hlen : buf.length ≤ (buf ++ c).length := by simp
  by_cases h2 : buf.length < 2
  · exact absurd (if_pos h2) h
  rw [if_neg h2] at h
  rw [if_neg h2, if_neg (by omega), byteAt_append c (by omega)]
  by_cases hs : byteAt buf 1 ≠ ubxSync2
  · rw [if_pos hs, if_pos hs]
  rw [if_neg hs] at h
  rw [if_neg hs, if_neg hs]
  by_cases h6 : buf.length < 6
  · exact absurd (if_pos h6) h
  rw [if_neg h6] at h
  rw [if_neg h6, if_neg (by omega), ubxLength_append c (by omega)]
  by_cases hl : ubxLength buf > ubxMaxPayload
  · rw [if_pos hl, if_pos hl]
  rw [if_neg hl] at h
  rw [if_neg hl, if_neg hl]
  by_cases ht : buf.length < 6 + ubxLength buf + 2
  · exact absurd (if_pos ht) h
  simp only [slice_append c _ (not_lt.1 ht),
    slice_append c _ (show 6 + ubxLength buf + 2 - 2 ≤ buf.length by omega)]
  rw [if_neg ht, if_neg (by omega)]

theorem tryRtcm_append {buf : List UInt8} (c : List UInt8) (h : tryRtcm buf ≠ .wait) :
    tryRtcm (buf ++ c) = tryRtcm buf := by
  unfold tryRtcm at h ⊢
  have hlen : buf.length ≤ (buf ++ c).length := by simp
  by_cases h3 : buf.length < 3
  · exact absurd (if_pos h3) h
  rw [if_neg h3] at h
  rw [if_neg h3, if_neg (by omega), byteAt_append c (by omega), rtcmLength_append c (by omega)]
  by_cases hl : (byteAt buf 1).toNat &&& 0xFC ≠ 0
  · rw [if_pos hl, if_pos hl]
  rw [if_neg hl] at h
  rw [if_neg hl, if_neg hl]
  by_cases ht : buf.length < 3 + rtcmLength buf + 3
  · exact absurd (if_pos ht) h
  simp only [byteAt_append c (show 3 + rtcmLength buf + 3 - 3 < buf.length by omega),
    byteAt_append c (show 3 + rtcmLength buf + 3 - 2 < buf.length by omega),
    byteAt_append c (show 3 + rtcmLength buf + 3 - 1 < buf.length by omega),
    List.take_append_of_le_length (show 3 + rtcmLength buf ≤ buf.length by omega)]
  rw [if_neg ht, if_neg (by omega)]

theorem findCrlf_le : ∀ {l : List UInt8} {i : ℕ}, findCrlf l = some i → i + 2 ≤ l.length
  | a :: b :: rest, i, h => by
    rw [findCrlf] at h
    split_ifs at h with hab
    · simp at h
      simp [← h]
    · obtain ⟨j, hj, rfl⟩ := Option.map_eq_some_iff.1 h
      have := findCrlf_le hj
      simp at this ⊢
      omega
  | [a], i, h => by simp [findCrlf] at h
  | [], i, h => by simp [findCrlf] at h

theorem findCrlf_append : ∀ {l : List UInt8} (c : List UInt8) {i : ℕ}, findCrlf l = some i →
    findCrlf (l ++ c) = some i
  | a :: b :: rest, c, i, h => by
    simp only [List.cons_append]
    rw [findCrlf] at h ⊢
    split_ifs at h ⊢ with hab
    · exact h
    · obtain ⟨j, hj, rfl⟩ := Option.map_eq_some_iff.1 h
      exact Option.map_eq_some_iff.2 ⟨j, findCrlf_append c hj, rfl⟩
  | [a], c, i, h => by simp [findCrlf] at h
  | [], c, i, h => by simp [findCrlf] at h

theorem findCrlf_getElem : ∀ {l : List UInt8} {i : ℕ}, findCrlf l = some i →
    l[i]? = some 0x0D ∧ l[i + 1]? = some 0x0A
  | a :: b :: rest, i, h => by
    rw [findCrlf] at h
    split_ifs at h with hab
    · obtain rfl : 0 = i := by simpa using h
      simp [hab.1, hab.2]
    · obtain ⟨j, hj, rfl⟩ := Option.map_eq_some_iff.1 h
      simpa using findCrlf_getElem hj
  | [a], i, h => by simp [findCrlf] at h
  | [], i, h => by simp [findCrlf] at h

theorem findCrlf_of_getElem : ∀ {l : List UInt8} {j : ℕ}, l[j]? = some 0x0D →
    l[j + 1]? = some 0x0A → ∃ i ≤ j, findCrlf l = some i
  | a :: b :: rest, 0, h₁, h₂ => by
    refine ⟨0, le_rfl, ?_⟩
    simp only [List.getElem?_cons_zero, Option.some.injEq] at h₁
    simp only [Nat.zero_add, List.getElem?_cons_succ, List.getElem?_cons_zero,
      Option.some.injEq] at h₂
    simp [findCrlf, h₁, h₂]
  | a :: b :: rest, j + 1, h₁, h₂ => by
    rw [findCrlf]
    split_ifs with hab
    · exact ⟨0, by omega, rfl⟩
    · obtain ⟨i, hi, hf⟩ := findCrlf_of_getElem (l := b :: rest) (j := j)
        (by simpa using h₁) (by simpa using h₂)
      exact ⟨i + 1, by omega, by simp [hf]⟩
  | [a], 0, _, h₂ => by simp at h₂
  | [a], j + 1, h₁, _ => by simp at h₁
  | [], j, h₁, _ => by simp at h₁

theorem findCrlf_of_append {l c : List UInt8} {i : ℕ} (h : findCrlf (l ++ c) = some i)
    (hi : i + 2 ≤ l.length) : findCrlf l = some i := by
  obtain ⟨h₁, h₂⟩ := findCrlf_getElem h
  rw [List.getElem?_append_left (by omega)] at h₁ h₂
  obtain ⟨j, -, hj⟩ := findCrlf_of_getElem h₁ h₂
  have hij : some j = some i := (findCrlf_append c hj).symm.trans h
  rwa [hij] at hj

theorem nmeaSentence_append {buf : List UInt8} (c : List UInt8) {stop : ℕ} (h : stop ≤ buf.length) :
    nmeaSentence (buf ++ c) stop = nmeaSentence buf stop := by
  rw [nmeaSentence, nmeaSentence, List.take_append_of_le_length h]
  cases hs : rfindStar (buf.take stop) with
  | none => rfl
  | some star =>
    by_cases h3 : stop - star ≠ 3
    · simp only [if_pos h3]
    · simp only [if_neg h3, slice_append c _ h, slice_append c _ (show star ≤ buf.length by omega)]

/-- The CR LF `_try_nmea` looks for. -/
def nmeaEnd (buf : List UInt8) : Option ℕ := findCrlf (buf.take (nmeaMaxLen + 2))

theorem nmeaEnd_append {buf : List UInt8} (c : List UInt8) {stop : ℕ}
    (h : nmeaEnd buf = some stop) :
    nmeaEnd (buf ++ c) = some stop := by
  rw [nmeaEnd, List.take_append]
  exact findCrlf_append _ h

theorem nmeaEnd_le {buf : List UInt8} {stop : ℕ} (h : nmeaEnd buf = some stop) :
    stop + 2 ≤ buf.length ∧ stop ≤ nmeaMaxLen := by
  have := findCrlf_le h
  simp at this
  omega

theorem nmeaEnd_of_append {b u : List UInt8} {stop : ℕ} (h : nmeaEnd (b ++ u) = some stop)
    (hstop : stop + 2 ≤ b.length) : nmeaEnd b = some stop := by
  have hle := (nmeaEnd_le h).2
  rw [nmeaEnd, List.take_append] at h
  refine findCrlf_of_append h ?_
  rw [List.length_take]
  omega

theorem nmeaEnd_getElem {b : List UInt8} {stop : ℕ} (h : nmeaEnd b = some stop) :
    b[stop]? = some 0x0D ∧ b[stop + 1]? = some 0x0A := by
  have hle := (nmeaEnd_le h).2
  obtain ⟨h₁, h₂⟩ := findCrlf_getElem h
  rw [List.getElem?_take_of_lt (by omega)] at h₁ h₂
  exact ⟨h₁, h₂⟩

theorem tryNmea_of_some {buf : List UInt8} {stop : ℕ} (h : nmeaEnd buf = some stop) :
    tryNmea buf = nmeaSentence buf stop := by
  rw [nmeaEnd] at h
  rw [tryNmea, h]

/-- A `$` given up on before the 258 bytes that may hold its CR LF have arrived. -/
def Stump (buf : List UInt8) : Prop :=
  byteAt buf 0 = nmeaStart ∧ nmeaMaxLen ≤ buf.length ∧ buf.length < nmeaMaxLen + 2 ∧
    nmeaEnd buf = none

theorem Stump.ne_nil {b : List UInt8} (h : Stump b) : b ≠ [] := by
  rintro rfl
  have := h.2.1
  simp [nmeaMaxLen] at this

theorem Stump.isSync {b : List UInt8} (h : Stump b) : isSync (byteAt b 0) = true := by
  rw [h.1]
  rfl

theorem attempt_nmea {b : List UInt8} (h : byteAt b 0 = nmeaStart) : attempt b = tryNmea b := by
  rw [attempt, if_neg (by rw [h]; decide), if_neg (by rw [h]; decide)]

theorem Stump.byteAt_append {b : List UInt8} (h : Stump b) (u : List UInt8) :
    byteAt (b ++ u) 0 = nmeaStart := by
  rw [Mtrtk.byteAt_append u (List.length_pos_of_ne_nil h.ne_nil), h.1]

theorem tryNmea_append {buf : List UInt8} (c : List UInt8)
    (hst : nmeaEnd buf = none → nmeaMaxLen + 2 ≤ buf.length) :
    tryNmea (buf ++ c) = tryNmea buf := by
  cases he : nmeaEnd buf with
  | some stop =>
    have := nmeaEnd_le he
    rw [tryNmea_of_some he, tryNmea_of_some (nmeaEnd_append c he), nmeaSentence_append c (by omega)]
  | none =>
    have hlen := hst he
    have he' : nmeaEnd (buf ++ c) = none := by
      rwa [nmeaEnd, List.take_append_of_le_length hlen]
    rw [nmeaEnd] at he he'
    rw [tryNmea, tryNmea, he, he']
    simp only [List.length_append]
    rw [if_neg (by omega), if_neg (by omega)]

theorem attempt_append {buf : List UInt8} (c : List UInt8) (h : attempt buf ≠ .wait)
    (hne : buf ≠ []) (hsync : isSync (byteAt buf 0) = true) (hst : ¬Stump buf) :
    attempt (buf ++ c) = attempt buf := by
  have h0 : byteAt (buf ++ c) 0 = byteAt buf 0 := byteAt_append c (List.length_pos_of_ne_nil hne)
  rw [attempt] at h
  rw [attempt, attempt, h0]
  by_cases hu : byteAt buf 0 = ubxSync1
  · rw [if_pos hu] at h
    rw [if_pos hu, if_pos hu, tryUbx_append c h]
  rw [if_neg hu] at h
  rw [if_neg hu, if_neg hu]
  by_cases hr : byteAt buf 0 = rtcmPreamble
  · rw [if_pos hr] at h
    rw [if_pos hr, if_pos hr, tryRtcm_append c h]
  rw [if_neg hr] at h
  rw [if_neg hr, if_neg hr]
  refine tryNmea_append c fun he => ?_
  have hd : byteAt buf 0 = nmeaStart := by
    simpa [isSync, hu, hr] using hsync
  by_contra hlt
  refine hst ⟨hd, ?_, by omega, he⟩
  by_contra hshort
  refine h ?_
  rw [nmeaEnd] at he
  rw [tryNmea, he]
  exact if_pos (by omega)

/-! ## The scanner -/

/-- What happens to the head of the buffer : a byte that starts nothing, a byte the
attempt for its protocol rejects, or a frame. -/
inductive FramerEvent
  | garbage
  | rejected (checksum : Bool)
  | frame (proto : Proto)
  deriving DecidableEq, Repr

/-- The decision of one round of `feed`, with garbage one byte at a time. -/
def coreHead (buf : List UInt8) : Option (ℕ × FramerEvent) :=
  match buf with
  | [] => none
  | first :: _ =>
    if isSync first then
      match attempt buf with
      | .wait => none
      | .reject checksum => some (1, .rejected checksum)
      | .emit proto total => some (total, .frame proto)
    else some (1, .garbage)

theorem tryUbx_emit {buf : List UInt8} {p : Proto} {n : ℕ} (h : tryUbx buf = .emit p n) :
    p = .ubx ∧ n = 6 + ubxLength buf + 2 ∧ n ≤ buf.length ∧ byteAt buf 1 = ubxSync2 ∧
      ubxLength buf ≤ ubxMaxPayload ∧ slice buf (n - 2) n = ubxChecksum (slice buf 2 (n - 2)) := by
  unfold tryUbx at h
  dsimp only at h
  split_ifs at h with h1 h2 h3 h4 h5 h6
  simp only [Attempt.emit.injEq] at h
  obtain ⟨rfl, rfl⟩ := h
  exact ⟨rfl, rfl, by omega, not_not.1 h2, by omega, not_not.1 h6⟩

theorem tryRtcm_emit {buf : List UInt8} {p : Proto} {n : ℕ} (h : tryRtcm buf = .emit p n) :
    p = .rtcm3 ∧ n = 3 + rtcmLength buf + 3 ∧ n ≤ buf.length ∧
      (byteAt buf 1).toNat &&& 0xFC = 0 ∧
      crc24q (buf.take (n - 3)) = ((byteAt buf (n - 3)).toNat <<< 16) |||
        ((byteAt buf (n - 2)).toNat <<< 8) ||| (byteAt buf (n - 1)).toNat := by
  unfold tryRtcm at h
  dsimp only at h
  split_ifs at h with h1 h2 h3 h4
  simp only [Attempt.emit.injEq] at h
  obtain ⟨rfl, rfl⟩ := h
  exact ⟨rfl, rfl, by omega, not_not.1 h2, not_not.1 h4⟩

theorem nmeaSentence_ne_wait (buf : List UInt8) (stop : ℕ) : nmeaSentence buf stop ≠ .wait := by
  unfold nmeaSentence
  split
  · simp
  · split_ifs
    · simp
    · split
      · simp
      · split_ifs <;> simp

theorem nmeaSentence_emit {buf : List UInt8} {stop n : ℕ} {p : Proto}
    (h : nmeaSentence buf stop = .emit p n) : p = .nmea ∧ n = stop + 2 := by
  unfold nmeaSentence at h
  split at h
  · simp at h
  · split_ifs at h
    split at h
    · simp at h
    · split_ifs at h
      simp only [Attempt.emit.injEq] at h
      exact ⟨h.1.symm, h.2.symm⟩

theorem tryNmea_emit {buf : List UInt8} {p : Proto} {n : ℕ} (h : tryNmea buf = .emit p n) :
    ∃ stop, nmeaEnd buf = some stop ∧ p = .nmea ∧ n = stop + 2 ∧
      nmeaSentence buf stop = .emit .nmea n := by
  cases he : nmeaEnd buf with
  | none =>
    rw [nmeaEnd] at he
    rw [tryNmea, he] at h
    simp only at h
    split_ifs at h
  | some stop =>
    rw [tryNmea_of_some he] at h
    obtain ⟨rfl, rfl⟩ := nmeaSentence_emit h
    exact ⟨stop, rfl, rfl, rfl, h⟩

theorem attempt_emit {buf : List UInt8} {p : Proto} {n : ℕ} (h : attempt buf = .emit p n) :
    0 < n ∧ n ≤ buf.length := by
  rw [attempt] at h
  split_ifs at h
  · obtain ⟨-, hn, hle, -⟩ := tryUbx_emit h
    omega
  · obtain ⟨-, hn, hle, -⟩ := tryRtcm_emit h
    omega
  · obtain ⟨stop, he, -, hn, -⟩ := tryNmea_emit h
    have := nmeaEnd_le he
    omega

/-- The four ways `coreHead` decides. -/
theorem coreHead_cases {buf : List UInt8} {n : ℕ} {e : FramerEvent}
    (h : coreHead buf = some (n, e)) :
    buf ≠ [] ∧
      ((isSync (byteAt buf 0) = false ∧ n = 1 ∧ e = .garbage) ∨
        (∃ ck, isSync (byteAt buf 0) = true ∧ attempt buf = .reject ck ∧ n = 1 ∧ e = .rejected ck) ∨
        ∃ p, isSync (byteAt buf 0) = true ∧ attempt buf = .emit p n ∧ e = .frame p) := by
  cases buf with
  | nil => simp [coreHead] at h
  | cons first rest =>
    refine ⟨by simp, ?_⟩
    rw [coreHead] at h
    have h0 : byteAt (first :: rest) 0 = first := rfl
    rw [h0]
    cases hs : isSync first with
    | false =>
      simp only [hs, Bool.false_eq_true, if_false, Option.some.injEq, Prod.mk.injEq] at h
      exact Or.inl ⟨rfl, h.1.symm, h.2.symm⟩
    | true =>
      simp only [hs, if_true] at h
      cases ha : attempt (first :: rest) with
      | wait => simp [ha] at h
      | reject ck =>
        simp only [ha, Option.some.injEq, Prod.mk.injEq] at h
        exact Or.inr (Or.inl ⟨ck, rfl, rfl, h.1.symm, h.2.symm⟩)
      | emit p total =>
        simp only [ha, Option.some.injEq, Prod.mk.injEq] at h
        exact Or.inr (Or.inr ⟨p, rfl, by rw [h.1], h.2.symm⟩)

theorem coreHead_emit {buf : List UInt8} {p : Proto} {n : ℕ} (hs : isSync (byteAt buf 0) = true)
    (h : attempt buf = .emit p n) : coreHead buf = some (n, .frame p) := by
  have := attempt_emit h
  cases buf with
  | nil => simp at this; omega
  | cons first rest =>
    have h0 : isSync first = true := hs
    simp [coreHead, h0, h]

theorem coreHead_reject {buf : List UInt8} {ck : Bool} (hne : buf ≠ [])
    (hs : isSync (byteAt buf 0) = true) (h : attempt buf = .reject ck) :
    coreHead buf = some (1, .rejected ck) := by
  cases buf with
  | nil => exact (hne rfl).elim
  | cons first rest =>
    have h0 : isSync first = true := hs
    simp [coreHead, h0, h]

/-- A stump is rejected. -/
theorem Stump.coreHead {b : List UInt8} (h : Stump b) : coreHead b = some (1, .rejected false) := by
  refine coreHead_reject h.ne_nil h.isSync ?_
  obtain ⟨h0, hlen, -, he⟩ := h
  rw [nmeaEnd] at he
  rw [attempt_nmea h0, tryNmea, he]
  exact if_neg (by omega)

/-- The framer's decisions as a scanner. -/
def coreScanner : Scanner UInt8 FramerEvent where
  head := coreHead
  pos h := by
    obtain ⟨-, ⟨-, hn, -⟩ | ⟨ck, -, -, hn, -⟩ | ⟨p, -, ha, -⟩⟩ := coreHead_cases h
    · omega
    · omega
    · exact (attempt_emit ha).1
  le h := by
    obtain ⟨hne, ⟨-, hn, -⟩ | ⟨ck, -, -, hn, -⟩ | ⟨p, -, ha, -⟩⟩ := coreHead_cases h
    · exact hn ▸ List.length_pos_of_ne_nil hne
    · exact hn ▸ List.length_pos_of_ne_nil hne
    · exact (attempt_emit ha).2

/-- Only a stump is decided otherwise once more bytes follow. -/
theorem coreHead_append {buf : List UInt8} (c : List UInt8) {r : ℕ × FramerEvent}
    (h : coreHead buf = some r) (hst : ¬Stump buf) : coreHead (buf ++ c) = some r := by
  obtain ⟨n, e⟩ := r
  obtain ⟨hne, hcases⟩ := coreHead_cases h
  have h0 : byteAt (buf ++ c) 0 = byteAt buf 0 := byteAt_append c (List.length_pos_of_ne_nil hne)
  have hne' : buf ++ c ≠ [] := by simp [hne]
  obtain ⟨hs, rfl, rfl⟩ | ⟨ck, hs, ha, rfl, rfl⟩ | ⟨p, hs, ha, rfl⟩ := hcases
  · obtain ⟨first, rest, rfl⟩ := List.exists_cons_of_ne_nil hne
    have hf : isSync first = false := hs
    simp [coreHead, hf]
  · exact coreHead_reject hne' (by rw [h0, hs])
      (by rw [attempt_append c (by rw [ha]; simp) hne hs hst, ha])
  · exact coreHead_emit (by rw [h0, hs])
      (by rw [attempt_append c (by rw [ha]; simp) hne hs hst, ha])

/-! ## The loop is the scan -/

/-- The frames among the events. -/
def framesOf (evs : List (List UInt8 × FramerEvent)) : List Frame :=
  evs.filterMap fun x =>
    match x.2 with
    | .frame p => some ⟨p, x.1⟩
    | _ => none

/-- The stats after one event. -/
def FramerStats.record (st : FramerStats) (x : List UInt8 × FramerEvent) : FramerStats :=
  match x.2 with
  | .garbage => st.garbage x.1.length
  | .rejected checksum => (st.checksum checksum).garbage x.1.length
  | .frame p => st.count p

/-- The stats after the events, in order. -/
def FramerStats.tally (st : FramerStats) (evs : List (List UInt8 × FramerEvent)) : FramerStats :=
  evs.foldl FramerStats.record st

@[simp] theorem framesOf_append (evs evs' : List (List UInt8 × FramerEvent)) :
    framesOf (evs ++ evs') = framesOf evs ++ framesOf evs' := by
  simp [framesOf]

@[simp] theorem FramerStats.tally_append (st : FramerStats)
    (evs evs' : List (List UInt8 × FramerEvent)) :
    st.tally (evs ++ evs') = (st.tally evs).tally evs' := by
  simp [FramerStats.tally]

/-- A scan's frames, stats and leftover, as `feed` leaves them in `f`. -/
def Framer.absorb (f : Framer) (r : List (List UInt8 × FramerEvent) × List UInt8) :
    List Frame × Framer :=
  (framesOf r.1, { f with buf := r.2, stats := f.stats.tally r.1 })

/-- A run of garbage has the same frames, tally and leftover skipped at once. -/
theorem tally_scan_garbage (st : FramerStats) : ∀ (first : UInt8) (rest : List UInt8),
    isSync first = false →
      framesOf (coreScanner.scan (first :: rest)).1 =
          framesOf (coreScanner.scan ((first :: rest).drop (Framer.nextSync (first :: rest)))).1 ∧
        st.tally (coreScanner.scan (first :: rest)).1 =
          (st.garbage (Framer.nextSync (first :: rest))).tally
            (coreScanner.scan ((first :: rest).drop (Framer.nextSync (first :: rest)))).1 ∧
        (coreScanner.scan (first :: rest)).2 =
          (coreScanner.scan ((first :: rest).drop (Framer.nextSync (first :: rest)))).2
  | first, rest, hf => by
    have hhead : coreScanner.head (first :: rest) = some (1, .garbage) := by
      simp [coreScanner, coreHead, hf]
    rw [coreScanner.scan_of_some hhead]
    cases rest with
    | nil => simp [Framer.nextSync, framesOf, FramerStats.tally, FramerStats.record]
    | cons second rest =>
      cases hs : isSync second with
      | true =>
        simp [Framer.nextSync, hs, framesOf, FramerStats.tally, FramerStats.record,
          List.findIdx_cons]
      | false =>
        have hnext : Framer.nextSync (first :: second :: rest) =
            Framer.nextSync (second :: rest) + 1 := by
          simp [Framer.nextSync, List.findIdx_cons, hs]
          omega
        obtain ⟨h1, h2, h3⟩ := tally_scan_garbage (st.garbage 1) second rest hs
        have hst : st.garbage (Framer.nextSync (second :: rest) + 1) =
            (st.garbage 1).garbage (Framer.nextSync (second :: rest)) := by
          simp only [FramerStats.garbage, FramerStats.mk.injEq, true_and, and_true]
          omega
        simp only [hnext, List.drop_succ_cons, List.drop_zero, hst, ← h1, ← h2, ← h3]
        exact ⟨rfl, rfl, trivial⟩

theorem Framer.loop_eq : ∀ (k : ℕ) (f : Framer), f.buf.length ≤ k →
    f.loop k = f.absorb (coreScanner.scan f.buf)
  | k, ⟨[], M, st⟩, _ => by
    rw [coreScanner.scan_of_none coreScanner.head_nil]
    cases k <;> rfl
  | 0, ⟨_ :: _, M, st⟩, h => by simp at h
  | k + 1, ⟨first :: rest, M, st⟩, h => by
    have hlen : rest.length ≤ k := by simpa using h
    simp only [loop]
    cases hs : isSync first with
    | false =>
      obtain ⟨h1, h2, h3⟩ := tally_scan_garbage st first rest hs
      simp only [Bool.false_eq_true, if_false]
      rw [loop_eq k _ (by simp [Framer.nextSync]; omega), absorb, absorb, h1, h2, h3]
    | true =>
      simp only [if_true]
      cases ha : attempt (first :: rest) with
      | wait =>
        have hhead : coreScanner.head (first :: rest) = none := by
          simp [coreScanner, coreHead, hs, ha]
        rw [coreScanner.scan_of_none hhead]
        rfl
      | reject ck =>
        have hhead : coreScanner.head (first :: rest) = some (1, .rejected ck) := by
          simp [coreScanner, coreHead, hs, ha]
        simp only
        rw [loop_eq k _ (by simpa using hlen), coreScanner.scan_of_some hhead]
        rfl
      | emit p total =>
        have hhead : coreScanner.head (first :: rest) = some (total, .frame p) :=
          coreHead_emit (show isSync (byteAt (first :: rest) 0) = true from hs) ha
        have hpos := (attempt_emit ha).1
        simp only
        rw [loop_eq k _ (by simp [emit]; omega), coreScanner.scan_of_some hhead]
        rfl

/-- Without an overflow, `feed` is one `resume`. -/
theorem Framer.feed_eq_scan (f : Framer) (data : List UInt8)
    (h : f.buf.length + data.length ≤ f.maxBuffer) :
    f.feed data = f.absorb (coreScanner.scan (f.buf ++ data)) := by
  have hle : ¬(f.buf ++ data).length > f.maxBuffer := by
    rw [List.length_append]
    omega
  unfold feed
  simp only [if_neg hle]
  exact loop_eq _ _ le_rfl

theorem Framer.absorb_feed (f : Framer) (r : List (List UInt8 × FramerEvent) × List UInt8)
    (p : List UInt8) (h : r.2.length + p.length ≤ f.maxBuffer) :
    (f.absorb r).2.feed p = (f.absorb r).2.absorb (coreScanner.scan (r.2 ++ p)) ∧
      ((f.absorb r).2.feed p).2 = (f.absorb (coreScanner.resume r p)).2 := by
  have hfeed : (f.absorb r).2.feed p = (f.absorb r).2.absorb (coreScanner.scan (r.2 ++ p)) :=
    feed_eq_scan _ p h
  refine ⟨hfeed, ?_⟩
  rw [hfeed]
  simp [absorb, Scanner.resume]

theorem Framer.noOverflow_iff : ∀ (ps : List (List UInt8)) (f : Framer)
    (r : List (List UInt8 × FramerEvent) × List UInt8),
    (f.absorb r).2.NoOverflow ps ↔ coreScanner.Fits f.maxBuffer r ps
  | [], _, _ => Iff.rfl
  | p :: ps, f, r => by
    unfold NoOverflow Scanner.Fits
    refine and_congr_right fun hp => ?_
    rw [(absorb_feed f r p hp).2]
    exact noOverflow_iff ps f (coreScanner.resume r p)

theorem Framer.feedAll_absorb : ∀ (ps : List (List UInt8)) (f : Framer)
    (r : List (List UInt8 × FramerEvent) × List UInt8), coreScanner.Fits f.maxBuffer r ps →
      framesOf r.1 ++ ((f.absorb r).2.feedAll ps).1 =
          (f.absorb (ps.foldl coreScanner.resume r)).1 ∧
        ((f.absorb r).2.feedAll ps).2 = (f.absorb (ps.foldl coreScanner.resume r)).2
  | [], f, r, _ => by simp [feedAll, absorb]
  | p :: ps, f, r, h => by
    obtain ⟨hp, hps⟩ := h
    obtain ⟨hfeed, habs⟩ := absorb_feed f r p hp
    obtain ⟨ih₁, ih₂⟩ := feedAll_absorb ps f (coreScanner.resume r p) hps
    rw [feedAll, habs, List.foldl_cons]
    refine ⟨?_, ih₂⟩
    rw [← ih₁, hfeed]
    simp [absorb, Scanner.resume]

/-- A fresh framer : `Framer(max_buffer)`. -/
def Framer.fresh (M : ℕ) : Framer := { maxBuffer := M }

theorem Framer.fresh_noOverflow_iff {M : ℕ} {ps : List (List UInt8)} :
    (fresh M).NoOverflow ps ↔ coreScanner.Fits M ([], []) ps :=
  noOverflow_iff ps (fresh M) ([], [])

/-- A fresh framer fed a stream in pieces that never overflow. -/
theorem Framer.fresh_feedAll {M : ℕ} {ps : List (List UInt8)} (h : (fresh M).NoOverflow ps) :
    (fresh M).feedAll ps = (fresh M).absorb (ps.foldl coreScanner.resume ([], [])) := by
  obtain ⟨h₁, h₂⟩ := feedAll_absorb ps (fresh M) ([], []) (fresh_noOverflow_iff.1 h)
  exact Prod.ext h₁ h₂

/-- What the framer waits on is shorter than the longest UBX frame. -/
theorem coreHead_none_length {buf : List UInt8} (h : coreHead buf = none) :
    buf.length < ubxMaxPayload + 8 := by
  cases buf with
  | nil => simp [ubxMaxPayload]
  | cons first rest =>
    cases hs : isSync first with
    | false => simp [coreHead, hs] at h
    | true =>
      cases ha : attempt (first :: rest) with
      | reject ck => simp [coreHead, hs, ha] at h
      | emit p n => simp [coreHead, hs, ha] at h
      | wait =>
        have hub : ubxMaxPayload = 8192 := rfl
        unfold attempt tryUbx tryRtcm at ha
        dsimp only at ha
        split_ifs at ha
        · omega
        · omega
        · omega
        · omega
        · have := rtcmLength_lt (first :: rest)
          omega
        · unfold tryNmea at ha
          split at ha
          · have : nmeaMaxLen = 256 := rfl
            split_ifs at ha
            omega
          · exact absurd ha (nmeaSentence_ne_wait _ _)

end Mtrtk
