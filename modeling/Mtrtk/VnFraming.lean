import Mtrtk.VnFrames

/-!
# VectorNav framing

`scanner` takes the framer's decisions one skipped byte at a time. None is changed by later
bytes (`scanner_stable`), and `VnFramer.feed_eq_scan` says that `feed` without an overflow
computes the scan : where the source skips to the next sync byte at once, the counters come
to the same (`scan_garbage`, `tally_skips`), a run of skipped bytes being one resync.

`vn_framing` : how a stream is cut does not matter.
-/

namespace Mtrtk

namespace Vn

/-! ## The scanner -/

/-- What happens to the head of the buffer : a byte that begins nothing, a sync byte whose
frame is rejected, or a frame. -/
inductive Event
  | skipped
  | rejected (fault : Fault)
  | frame (ascii : Bool)
  deriving DecidableEq, Repr

/-- The decision of one round of `feed`, with skipped bytes one at a time. -/
def head (buf : List UInt8) : Option (ℕ × Event) :=
  match buf with
  | [] => none
  | first :: _ =>
    if isSync first then
      match attempt buf with
      | .wait => none
      | .reject fault => some (1, .rejected fault)
      | .emit ascii total => some (total, .frame ascii)
    else some (1, .skipped)

theorem head_cases {buf : List UInt8} {n : ℕ} {e : Event} (h : head buf = some (n, e)) :
    buf ≠ [] ∧ (n = 1 ∨ ∃ ascii, attempt buf = .emit ascii n) := by
  cases buf with
  | nil => simp [head] at h
  | cons first rest =>
    refine ⟨by simp, ?_⟩
    rw [head] at h
    split_ifs at h
    · cases ha : attempt (first :: rest) with
      | wait => simp [ha] at h
      | reject fault =>
        simp only [ha, Option.some.injEq, Prod.mk.injEq] at h
        exact Or.inl h.1.symm
      | emit ascii total =>
        simp only [ha, Option.some.injEq, Prod.mk.injEq] at h
        exact Or.inr ⟨ascii, by rw [h.1]⟩
    · simp only [Option.some.injEq, Prod.mk.injEq] at h
      exact Or.inl h.1.symm

theorem head_pos {buf : List UInt8} {n : ℕ} {e : Event} (h : head buf = some (n, e)) : 0 < n := by
  obtain ⟨-, hn | ⟨ascii, ha⟩⟩ := head_cases h
  · omega
  · exact (attempt_emit ha).1

theorem head_le {buf : List UInt8} {n : ℕ} {e : Event} (h : head buf = some (n, e)) :
    n ≤ buf.length := by
  obtain ⟨hne, hn | ⟨ascii, ha⟩⟩ := head_cases h
  · exact hn ▸ List.length_pos_of_ne_nil hne
  · exact (attempt_emit ha).2

/-- The framer's decisions as a scanner. -/
def scanner : Scanner UInt8 Event where
  head := head
  pos := head_pos
  le := head_le

theorem scanner_head (buf : List UInt8) : scanner.head buf = head buf := rfl

/-- No decision is changed by the bytes that follow. -/
theorem scanner_stable : scanner.Stable := by
  rintro (_ | ⟨first, rest⟩) u r h
  · simp [scanner_head, head] at h
  · simp only [scanner_head, List.cons_append, head] at h ⊢
    cases hs : isSync first with
    | false => simpa [hs] using h
    | true =>
      have hu : attempt (first :: rest) ≠ .wait →
          attempt (first :: (rest ++ u)) = attempt (first :: rest) :=
        attempt_append u (by simp)
      simp only [hs, if_true] at h ⊢
      cases ha : attempt (first :: rest) with
      | wait => simp [ha] at h
      | reject fault => rw [hu (by simp [ha]), ha, ← h, ha]
      | emit ascii total => rw [hu (by simp [ha]), ha, ← h, ha]

/-- What the framer waits on is no longer than `MAX_PENDING`. -/
theorem head_none_length {buf : List UInt8} (h : scanner.head buf = none) :
    buf.length ≤ maxPending := by
  cases buf with
  | nil => simp
  | cons first rest =>
    rw [scanner_head, head] at h
    split_ifs at h
    cases ha : attempt (first :: rest) with
    | wait => exact attempt_wait ha
    | reject fault => simp [ha] at h
    | emit ascii total => simp [ha] at h

/-! ## The loop is the scan -/

/-- The frames among the events. -/
def framesOf (evs : List (List UInt8 × Event)) : List Frame :=
  evs.filterMap fun x =>
    match x.2 with
    | .frame _ => some ⟨.vn, x.1⟩
    | _ => none

/-- The counters after one event. -/
def Counters.record (c : Counters) (x : List UInt8 × Event) : Counters :=
  match x.2 with
  | .skipped => c.skip x.1.length
  | .rejected fault => (c.count fault).skip x.1.length
  | .frame ascii => c.emit ascii

/-- The counters after the events, in order. -/
def Counters.tally (c : Counters) (evs : List (List UInt8 × Event)) : Counters :=
  evs.foldl Counters.record c

@[simp] theorem framesOf_append (evs evs' : List (List UInt8 × Event)) :
    framesOf (evs ++ evs') = framesOf evs ++ framesOf evs' := by
  simp [framesOf]

@[simp] theorem Counters.tally_append (c : Counters) (evs evs' : List (List UInt8 × Event)) :
    c.tally (evs ++ evs') = (c.tally evs).tally evs' := by
  simp [Counters.tally]

/-- A scan's frames, counters and leftover, as `feed` leaves them in `f`. -/
def VnFramer.absorb (f : VnFramer) (r : List (List UInt8 × Event) × List UInt8) :
    List Frame × VnFramer :=
  (framesOf r.1, ⟨r.2, f.counters.tally r.1⟩)

/-- Bytes skipped one at a time. -/
def skips (l : List UInt8) : List (List UInt8 × Event) := l.map fun x => ([x], .skipped)

theorem framesOf_skips (l : List UInt8) : framesOf (skips l) = [] := by
  simp [framesOf, skips]

theorem Counters.skip_skip (c : Counters) (m n : ℕ) : (c.skip m).skip n = c.skip (m + n) := by
  simp [Counters.skip, Nat.add_assoc]

/-- One at a time or at once, it is one resync. -/
theorem tally_skips (x : UInt8) (l : List UInt8) (c : Counters) :
    c.tally (skips (x :: l)) = c.skip (l.length + 1) := by
  induction l generalizing x c with
  | nil => rfl
  | cons y l ih =>
    have hcons : c.tally (skips (x :: y :: l)) = (c.skip 1).tally (skips (y :: l)) := rfl
    rw [hcons, ih, Counters.skip_skip, List.length_cons, Nat.add_comm 1]

theorem scan_garbage (rest : List UInt8) : ∀ l : List UInt8, (∀ x ∈ l, isSync x = false) →
    scanner.scan (l ++ rest) = (skips l ++ (scanner.scan rest).1, (scanner.scan rest).2)
  | [], _ => rfl
  | x :: l, h => by
    obtain ⟨hx, hl⟩ := List.forall_mem_cons.1 h
    have hhead : scanner.head (x :: (l ++ rest)) = some (1, .skipped) := by
      simp [scanner_head, head, hx]
    rw [List.cons_append, scanner.scan_of_some hhead, List.drop_one, List.tail_cons,
      scan_garbage rest l hl]
    rfl

/-- There is no sync byte before the next one. -/
theorem not_isSync_of_mem_take {first x : UInt8} {rest : List UInt8} (hf : isSync first = false)
    (hx : x ∈ (first :: rest).take (VnFramer.nextSync (first :: rest))) : isSync x = false := by
  rw [VnFramer.nextSync, Nat.add_comm, List.take_succ_cons, List.mem_cons, List.tail_cons] at hx
  rcases hx with rfl | hx
  · exact hf
  · obtain ⟨i, hi, rfl⟩ := List.getElem_of_mem hx
    rw [List.getElem_take]
    rw [List.length_take] at hi
    exact List.not_of_lt_findIdx (by omega)

theorem VnFramer.loop_eq : ∀ (k : ℕ) (f : VnFramer), f.buf.length ≤ k →
    f.loop k = f.absorb (scanner.scan f.buf)
  | k, ⟨[], c⟩, _ => by
    rw [scanner.scan_of_none scanner.head_nil]
    cases k <;> rfl
  | 0, ⟨_ :: _, c⟩, h => by simp at h
  | k + 1, ⟨first :: rest, c⟩, h => by
    have hlen : rest.length ≤ k := by simpa using h
    simp only [loop]
    cases hs : isSync first with
    | false =>
      obtain ⟨n, hn⟩ : ∃ n, nextSync (first :: rest) = n + 1 := ⟨_, Nat.add_comm 1 _⟩
      have hall : ∀ x ∈ (first :: rest).take (nextSync (first :: rest)), isSync x = false :=
        fun x => not_isSync_of_mem_take hs
      have hscan := scan_garbage ((first :: rest).drop (nextSync (first :: rest))) _ hall
      have hle : nextSync (first :: rest) ≤ (first :: rest).length := by
        have : rest.findIdx isSync ≤ rest.length := List.findIdx_le_length
        simp only [nextSync, List.tail_cons, List.length_cons]
        omega
      rw [List.take_append_drop, hn] at hscan
      rw [hn] at hle
      simp only [Bool.false_eq_true, if_false]
      rw [loop_eq k _ (by simp [skip, hn]; omega), hscan, hn]
      simp only [skip, absorb, framesOf_append, framesOf_skips, List.nil_append,
        Counters.tally_append, List.take_succ_cons, tally_skips, List.length_take]
      rw [Nat.min_eq_left (by simpa using hle)]
    | true =>
      simp only [if_true]
      cases ha : attempt (first :: rest) with
      | wait =>
        have hhead : scanner.head (first :: rest) = none := by simp [scanner_head, head, hs, ha]
        rw [scanner.scan_of_none hhead]
        rfl
      | reject fault =>
        have hhead : scanner.head (first :: rest) = some (1, .rejected fault) := by
          simp [scanner_head, head, hs, ha]
        simp only
        rw [loop_eq k _ (by simpa [skip] using hlen), scanner.scan_of_some hhead]
        rfl
      | emit ascii total =>
        have hhead : scanner.head (first :: rest) = some (total, .frame ascii) := by
          simp [scanner_head, head, hs, ha]
        have hpos := (attempt_emit ha).1
        simp only
        rw [loop_eq k _ (by simp; omega), scanner.scan_of_some hhead]
        rfl

/-- What `feed` leaves waits. -/
theorem VnFramer.length_feed_le (f : VnFramer) (data : List UInt8) :
    (f.feed data).2.buf.length ≤ maxPending := by
  unfold feed
  dsimp only
  rw [loop_eq _ _ le_rfl]
  exact head_none_length (scanner.head_scan_rest _)

/-- Without an overflow, `feed` is one scan of what is held and what comes. -/
theorem VnFramer.feed_eq_scan (f : VnFramer) (data : List UInt8)
    (h : f.buf.length + data.length ≤ maxBuffer) :
    f.feed data = f.absorb (scanner.scan (f.buf ++ data)) := by
  have hle : ¬(f.buf ++ data).length > maxBuffer := by
    rw [List.length_append]
    omega
  unfold feed
  simp only [if_neg hle]
  exact loop_eq _ _ le_rfl

theorem VnFramer.feedAll_absorb : ∀ (ps : List (List UInt8)) (f : VnFramer)
    (r : List (List UInt8 × Event) × List UInt8), (f.absorb r).2.NoOverflow ps →
      framesOf r.1 ++ ((f.absorb r).2.feedAll ps).1 =
          (f.absorb (ps.foldl scanner.resume r)).1 ∧
        ((f.absorb r).2.feedAll ps).2 = (f.absorb (ps.foldl scanner.resume r)).2
  | [], f, r, _ => by simp [feedAll, absorb]
  | p :: ps, f, r, h => by
    obtain ⟨hp, hps⟩ := h
    have hfeed : (f.absorb r).2.feed p = (f.absorb r).2.absorb (scanner.scan (r.2 ++ p)) :=
      feed_eq_scan _ p hp
    have habs : ((f.absorb r).2.feed p).2 = (f.absorb (scanner.resume r p)).2 := by
      rw [hfeed]
      simp [absorb, Scanner.resume]
    rw [habs] at hps
    obtain ⟨ih₁, ih₂⟩ := feedAll_absorb ps f (scanner.resume r p) hps
    rw [feedAll, habs, List.foldl_cons]
    refine ⟨?_, ih₂⟩
    rw [← ih₁, hfeed]
    simp [absorb, Scanner.resume]

/-- A fresh framer fed a stream in pieces that never overflow has scanned the stream. -/
theorem VnFramer.fresh_feedAll {ps : List (List UInt8)} (h : ({} : VnFramer).NoOverflow ps) :
    ({} : VnFramer).feedAll ps = ({} : VnFramer).absorb (scanner.scan ps.flatten) := by
  obtain ⟨h₁, h₂⟩ := feedAll_absorb ps {} ([], []) h
  rw [← scanner_stable.foldl_resume]
  exact Prod.ext h₁ h₂

/-- Pieces that leave room for what is waited on never overflow. -/
theorem VnFramer.noOverflow_of_length_le : ∀ (ps : List (List UInt8)) (f : VnFramer),
    f.buf.length ≤ maxPending → (∀ p ∈ ps, maxPending + p.length ≤ maxBuffer) → f.NoOverflow ps
  | [], _, _, _ => trivial
  | p :: ps, f, hf, h => by
    obtain ⟨hp, hps⟩ := List.forall_mem_cons.1 h
    exact ⟨by omega, noOverflow_of_length_le ps _ (f.length_feed_le p) hps⟩

/-! ## Any way of cutting -/

/-- `_walk` answers the same on every longer buffer once it answers, and it has an answer on
every buffer longer than `MAX_PENDING` ; a feed leaves no more than that ; and how a stream
is cut into pieces that never overflow does not matter. -/
theorem vn_framing :
    (∀ b u, walk.on b ≠ .ok none → walk.on (b ++ u) = walk.on b) ∧
    (∀ b, binaryLength.on b = .ok none → b.length ≤ maxPending) ∧
    (∀ (f : VnFramer) data, (f.feed data).2.buf.length ≤ maxPending) ∧
    ∀ ps qs : List (List UInt8), ({} : VnFramer).NoOverflow ps → ({} : VnFramer).NoOverflow qs →
      ps.flatten = qs.flatten → ({} : VnFramer).feedAll ps = ({} : VnFramer).feedAll qs := by
  refine ⟨walk_reads.settled, fun b hb => (length_of_binaryLength hb).le,
    VnFramer.length_feed_le, fun ps qs hps hqs h => ?_⟩
  rw [VnFramer.fresh_feedAll hps, VnFramer.fresh_feedAll hqs, h]

/-- `$VN*18`, and a frame of the time since the start. -/
def lineAndTime : List (List UInt8) :=
  [[0x24, 0x56, 0x4E, 0x2A, 0x31, 0x38, 0x0D, 0x0A],
    [0xFA, 0x01, 0x01, 0x00, 0x01, 0x02, 0x03, 0x04, 0x05, 0x06, 0x07, 0x08, 0xC1, 0xA0]]

/-- They come behind a byte of garbage and are cut before the CR LF, in the field mask and in the
payload. -/
def cutUp : List (List UInt8) :=
  [[0x00, 0x24, 0x56, 0x4E, 0x2A, 0x31, 0x38], [0x0D, 0x0A, 0xFA, 0x01, 0x01],
    [0x00, 0x01, 0x02], [0x03, 0x04, 0x05, 0x06, 0x07, 0x08, 0xC1, 0xA0]]

theorem vn_framing_cutUp :
    ({} : VnFramer).feedAll cutUp =
      (lineAndTime.map (Frame.mk .vn),
        { counters := { stats :=
          { frames := 2, asciiFrames := 1, resyncs := 1, bytesSkipped := 1 } } }) := by
  have hfits : ∀ ps : List (List UInt8), (∀ p ∈ ps, maxPending + p.length ≤ maxBuffer) →
      ({} : VnFramer).NoOverflow ps := fun ps =>
    VnFramer.noOverflow_of_length_le ps {} (Nat.zero_le _)
  obtain ⟨-, -, -, hcut⟩ := vn_framing
  rw [hcut cutUp [0x00 :: lineAndTime.flatten] (hfits _ (by decide)) (hfits _ (by decide)) rfl]
  decide +kernel

end Vn

end Mtrtk
