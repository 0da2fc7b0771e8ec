import Mtrtk.FrameForm

/-!
# The SBG framer

`rover/drivers/sbg/framer.py` : sbgECom frames are `FF 5A`, id, class, a little-endian
length, the payload, a CRC-16/KERMIT and `33`. `encode` builds one, `SbgFramer.feed`
finds them in a byte stream. `candidate` is what one round of its loop makes of a buffer
that begins with the sync pair.

`scanner` is the same decisions one skipped byte at a time. They are not changed by later
bytes (`scanner_stable`), and `SbgFramer.feed_eq_scan` says the loop computes exactly the
scan : where it skips to the next sync pair at once, or keeps a last `FF` that may pair
with the next piece's `5A`, the scan comes to the same place (`scan_of_findSync`,
`scan_of_no_sync`). The time stamps of a `Frame` are left out.
-/

namespace Mtrtk

namespace Sbg

def sync1 : UInt8 := 0xFF
def sync2 : UInt8 := 0x5A
def etx : UInt8 := 0x33
def maxPayload : ℕ := 4086
def extendedClass : UInt8 := 0x80
/-- sync(2) id class len(2). -/
def header : ℕ := 6
/-- crc(2) etx. -/
def trailer : ℕ := 3

/-- `CLASS` of `ids.py`. -/
def classes : List (String × ℕ) :=
  [("LOG_ECOM_0", 0x00), ("LOG_ECOM_1", 0x01), ("LOG_NMEA_0", 0x02), ("LOG_NMEA_1", 0x03),
    ("LOG_THIRD_PARTY_0", 0x04), ("LOG_NMEA_GNSS", 0x05), ("LOG_CMD_0", 0x10), ("CMD_0", 0x10),
    ("LOG_ALL", 0xFF)]

/-- `WIRE_CLASSES`. -/
def wireClasses : List ℕ := (classes.filter fun kv => kv.1 ≠ "LOG_ALL").map Prod.snd

/-! ## `crc.py` -/

/-- One of the eight shifts of `_table`. -/
def kermitShift (crc : ℕ) : ℕ := if crc &&& 1 ≠ 0 then (crc >>> 1) ^^^ 0x8408 else crc >>> 1

/-- `_table`. -/
def kermitTable : List ℕ := (List.range 256).map fun i => kermitShift^[8] i

/-- `crc16_kermit`. -/
def crc16Kermit (data : List UInt8) : ℕ :=
  data.foldl (fun crc b => kermitTable.getD ((b.toNat ^^^ crc) &&& 0xFF) 0 ^^^ (crc >>> 8)) 0

example : crc16Kermit [0x31, 0x32, 0x33, 0x34, 0x35, 0x36, 0x37, 0x38, 0x39] = 0x2189 := by
  decide +kernel

theorem kermitTable_lt (i : ℕ) : kermitTable.getD i 0 < 65536 := by
  have key : ∀ i < 256, kermitTable.getD i 0 < 65536 := by decide +kernel
  rcases Nat.lt_or_ge i 256 with hi | hi
  · exact key i hi
  · have hlen : kermitTable.length = 256 := by simp [kermitTable]
    simp [List.getD_eq_getElem?_getD, List.getElem?_eq_none (by omega : kermitTable.length ≤ i)]

/-- The CRC fits its two bytes. -/
theorem crc16Kermit_lt (data : List UInt8) : crc16Kermit data < 65536 := by
  induction data using List.reverseRecOn with
  | nil => decide
  | append_singleton data b ih =>
    rw [crc16Kermit, List.foldl_append]
    refine Nat.xor_lt_two_pow (n := 16) (kermitTable_lt _) ?_
    exact lt_of_le_of_lt (Nat.shiftRight_le _ _) ih

/-! ## `encode` -/

/-- `struct.pack("<H", n)`, where `n` fits. -/
def packU16 (n : ℕ) : List UInt8 := [UInt8.ofNat n, UInt8.ofNat (n / 256)]

/-- The frame `encode` returns : the CRC covers id, class, length and payload. -/
def frameBytes (msgClass msgId : UInt8) (payload : List UInt8) : List UInt8 :=
  let body := msgId :: msgClass :: packU16 payload.length ++ payload
  sync1 :: sync2 :: body ++ packU16 (crc16Kermit body) ++ [etx]

/-- `encode`, with the messages of its `ValueError`s. The last is that of
`bytes([msg_id, msg_class])`. -/
def encode (msgClass msgId : ℕ) (payload : List UInt8) : Except String (List UInt8) :=
  if payload.length > maxPayload then
    .error "payload exceeds 4086 bytes (extended frames are not supported)"
  else if msgClass &&& extendedClass.toNat ≠ 0 then
    .error "class bit 7 marks an extended frame, which encode() does not build"
  else if msgId ≥ 256 ∨ msgClass ≥ 256 then .error "bytes must be in range(0, 256)"
  else .ok (frameBytes (UInt8.ofNat msgClass) (UInt8.ofNat msgId) payload)

/-! ## `SbgFramer.feed` -/

/-- `FramerStats`. -/
structure FramerStats where
  frames : ℕ := 0
  crcFailed : ℕ := 0
  resyncs : ℕ := 0
  extendedDropped : ℕ := 0
  bytesSkipped : ℕ := 0
  deriving DecidableEq, Repr

/-- `SbgFramer`. -/
structure SbgFramer where
  buf : List UInt8 := []
  stats : FramerStats := {}
  deriving DecidableEq, Repr

/-- `buf.find(SYNC)`. -/
def findSync : List UInt8 → Option ℕ
  | a :: b :: rest =>
    if a = sync1 ∧ b = sync2 then some 0 else (findSync (b :: rest)).map (· + 1)
  | _ => none

/-- `keep` : a trailing `FF` is kept. -/
def keep (buf : List UInt8) : ℕ := if buf.getLast? = some sync1 then 1 else 0

/-- `length` of the header. -/
def payloadLength (buf : List UInt8) : ℕ := (byteAt buf 4).toNat ||| ((byteAt buf 5).toNat <<< 8)

/-- `crc` of the trailer behind `length` bytes of payload. -/
def crcField (buf : List UInt8) (length : ℕ) : ℕ :=
  (byteAt buf (header + length)).toNat ||| ((byteAt buf (header + length + 1)).toNat <<< 8)

/-- `raw[3] & EXTENDED_CLASS`. -/
def isExtended (raw : List UInt8) : Bool := byteAt raw 3 &&& extendedClass != 0

/-- What a buffer that begins with the sync pair comes to : more bytes are needed, the
class or LEN is bad, the ETX or CRC is bad, or it is a frame of `total` bytes. -/
inductive Candidate
  | wait
  | badHeader
  | badTrailer
  | complete (total : ℕ)
  deriving DecidableEq, Repr

/-- The checks of one round. -/
def candidate (buf : List UInt8) : Candidate :=
  if buf.length < header then .wait
  else
    let length := payloadLength buf
    if length > maxPayload ∨ (byteAt buf 3 &&& ~~~extendedClass).toNat ∉ wireClasses then .badHeader
    else
      let total := header + length + trailer
      if buf.length < total then .wait
      else if byteAt buf (total - 1) ≠ etx ∨
          crcField buf length ≠ crc16Kermit (slice buf 2 (header + length)) then .badTrailer
      else .complete total

namespace SbgFramer

/-- `stats.bytes_skipped += n` and `del buf[:n]`. -/
def skip (f : SbgFramer) (n : ℕ) : SbgFramer :=
  { buf := f.buf.drop n, stats := { f.stats with bytesSkipped := f.stats.bytesSkipped + n } }

/-- `_skip_one`. -/
def skipOne (f : SbgFramer) : SbgFramer :=
  { buf := f.buf.drop 1,
    stats := { f.stats with
      resyncs := f.stats.resyncs + 1, bytesSkipped := f.stats.bytesSkipped + 1 } }

/-- `stats.crc_failed += 1`. -/
def failCrc (f : SbgFramer) : SbgFramer :=
  { f with stats := { f.stats with crcFailed := f.stats.crcFailed + 1 } }

/-- `del buf[:total]` and `stats.extended_dropped += 1`. -/
def dropExtended (f : SbgFramer) (total : ℕ) : SbgFramer :=
  { buf := f.buf.drop total,
    stats := { f.stats with extendedDropped := f.stats.extendedDropped + 1 } }

/-- `del buf[:total]` and `stats.frames += 1`. -/
def emit (f : SbgFramer) (total : ℕ) : SbgFramer :=
  { buf := f.buf.drop total, stats := { f.stats with frames := f.stats.frames + 1 } }

/-- The `while` loop of `feed`, at most `k` rounds. -/
def loop : ℕ → SbgFramer → List Frame × SbgFramer
  | 0, f => ([], f)
  | k + 1, f =>
    if f.buf = [] then ([], f)
    else
      match findSync f.buf with
      | none => ([], f.skip (f.buf.length - keep f.buf))
      | some start =>
        let f := f.skip start
        match candidate f.buf with
        | .wait => ([], f)
        | .badHeader => loop k f.skipOne
        | .badTrailer => loop k f.failCrc.skipOne
        | .complete total =>
          let raw := f.buf.take total
          if isExtended raw then loop k (f.dropExtended total)
          else (⟨.sbg, raw⟩ :: (loop k (f.emit total)).1, (loop k (f.emit total)).2)

/-- `feed`. Every round that goes on shortens the buffer, so its length is enough rounds. -/
def feed (f : SbgFramer) (data : List UInt8) : List Frame × SbgFramer :=
  let f := { f with buf := f.buf ++ data }
  f.loop f.buf.length

/-- The pieces of a stream, fed in order. -/
def feedAll (f : SbgFramer) : List (List UInt8) → List Frame × SbgFramer
  | [] => ([], f)
  | p :: ps => ((f.feed p).1 ++ ((f.feed p).2.feedAll ps).1, ((f.feed p).2.feedAll ps).2)

end SbgFramer

/-! ## The scanner -/

theorem payloadLength_append {buf : List UInt8} (c : List UInt8) (h : 6 ≤ buf.length) :
    payloadLength (buf ++ c) = payloadLength buf := by
  rw [payloadLength, payloadLength, byteAt_append c (by omega), byteAt_append c (by omega)]

theorem candidate_append {buf : List UInt8} (c : List UInt8) (h : candidate buf ≠ .wait) :
    candidate (buf ++ c) = candidate buf := by
  unfold candidate header trailer at h ⊢
  have hlen : buf.length ≤ (buf ++ c).length := by simp
  by_cases h6 : buf.length < 6
  · exact absurd (if_pos h6) h
  rw [if_neg h6] at h
  rw [if_neg h6, if_neg (by omega), payloadLength_append c (by omega), byteAt_append c (by omega)]
  by_cases hbad : payloadLength buf > maxPayload ∨
      (byteAt buf 3 &&& ~~~extendedClass).toNat ∉ wireClasses
  · simp only [if_pos hbad]
  simp only [if_neg hbad] at h ⊢
  by_cases ht : buf.length < 6 + payloadLength buf + 3
  · exact absurd (if_pos ht) h
  rw [if_neg ht, if_neg (by omega), crcField, crcField, header, byteAt_append c (by omega),
    byteAt_append c (by omega), byteAt_append c (by omega), slice_append c _ (by omega)]

theorem candidate_complete {buf : List UInt8} {n : ℕ} (h : candidate buf = .complete n) :
    n = 6 + payloadLength buf + 3 ∧ n ≤ buf.length ∧ payloadLength buf ≤ maxPayload ∧
      (byteAt buf 3 &&& ~~~extendedClass).toNat ∈ wireClasses ∧ byteAt buf (n - 1) = etx ∧
      crcField buf (payloadLength buf) = crc16Kermit (slice buf 2 (6 + payloadLength buf)) := by
  unfold candidate header trailer at h
  dsimp only at h
  split_ifs at h with h6 hbad ht htr
  simp only [Candidate.complete.injEq] at h
  obtain ⟨hmax, hcls⟩ := not_or.1 hbad
  obtain ⟨hetx, hcrc⟩ := not_or.1 htr
  subst h
  exact ⟨rfl, by omega, by omega, not_not.1 hcls, not_not.1 hetx, not_not.1 hcrc⟩

/-- What happens to the head of the buffer : a byte that begins no sync pair, a sync pair
whose frame is rejected (`crc` where it counts in `crc_failed`), an extended frame, or a
standard one. -/
inductive Event
  | skipped
  | rejected (crc : Bool)
  | extended
  | frame
  deriving DecidableEq, Repr

/-- The decision of one round, with bytes before the sync pair one at a time. -/
def head (buf : List UInt8) : Option (ℕ × Event) :=
  match buf with
  | [] => none
  | [a] => if a = sync1 then none else some (1, .skipped)
  | a :: b :: _ =>
    if a = sync1 ∧ b = sync2 then
      match candidate buf with
      | .wait => none
      | .badHeader => some (1, .rejected false)
      | .badTrailer => some (1, .rejected true)
      | .complete total => some (total, if isExtended (buf.take total) then .extended else .frame)
    else some (1, .skipped)

/-- The four ways `head` decides on a buffer that begins with the sync pair, or skips. -/
theorem head_cases {buf : List UInt8} {n : ℕ} {e : Event} (h : head buf = some (n, e)) :
    buf ≠ [] ∧
      ((n = 1 ∧ e = .skipped) ∨ (∃ crc, n = 1 ∧ e = .rejected crc) ∨
        (∃ rest, buf = sync1 :: sync2 :: rest) ∧ candidate buf = .complete n ∧
          e = if isExtended (buf.take n) then .extended else .frame) := by
  match buf, h with
  | [a], h =>
    simp only [head] at h
    split_ifs at h
    simp only [Option.some.injEq, Prod.mk.injEq] at h
    exact ⟨by simp, Or.inl ⟨h.1.symm, h.2.symm⟩⟩
  | a :: b :: rest, h =>
    refine ⟨by simp, ?_⟩
    simp only [head] at h
    split_ifs at h with hab
    · obtain ⟨rfl, rfl⟩ := hab
      cases hc : candidate (sync1 :: sync2 :: rest) with
      | wait => simp [hc] at h
      | badHeader =>
        simp only [hc, Option.some.injEq, Prod.mk.injEq] at h
        exact Or.inr (Or.inl ⟨false, h.1.symm, h.2.symm⟩)
      | badTrailer =>
        simp only [hc, Option.some.injEq, Prod.mk.injEq] at h
        exact Or.inr (Or.inl ⟨true, h.1.symm, h.2.symm⟩)
      | complete total =>
        simp only [hc, Option.some.injEq, Prod.mk.injEq] at h
        obtain ⟨rfl, rfl⟩ := h
        exact Or.inr (Or.inr ⟨⟨rest, rfl⟩, rfl, rfl⟩)
    · simp only [Option.some.injEq, Prod.mk.injEq] at h
      exact Or.inl ⟨h.1.symm, h.2.symm⟩

theorem candidate_pos {buf : List UInt8} {n : ℕ} (h : candidate buf = .complete n) :
    0 < n ∧ n ≤ buf.length := by
  obtain ⟨hn, hle, -⟩ := candidate_complete h
  omega

theorem head_pos {buf : List UInt8} {n : ℕ} {e : Event} (h : head buf = some (n, e)) : 0 < n := by
  obtain ⟨-, ⟨hn, -⟩ | ⟨crc, hn, -⟩ | ⟨-, hc, -⟩⟩ := head_cases h
  · omega
  · omega
  · exact (candidate_pos hc).1

theorem head_le {buf : List UInt8} {n : ℕ} {e : Event} (h : head buf = some (n, e)) :
    n ≤ buf.length := by
  obtain ⟨hne, ⟨hn, -⟩ | ⟨crc, hn, -⟩ | ⟨-, hc, -⟩⟩ := head_cases h
  · exact hn ▸ List.length_pos_of_ne_nil hne
  · exact hn ▸ List.length_pos_of_ne_nil hne
  · exact (candidate_pos hc).2

/-- The framer's decisions as a scanner. -/
def scanner : Scanner UInt8 Event where
  head := head
  pos := head_pos
  le := head_le

theorem scanner_head (buf : List UInt8) : scanner.head buf = head buf := rfl

/-- No decision is changed by the bytes that follow. -/
theorem scanner_stable : scanner.Stable := by
  rintro (_ | ⟨a, _ | ⟨b, rest⟩⟩) u r h
  · simp [scanner, head] at h
  · have ha : a ≠ sync1 := by
      rintro rfl
      simp [scanner, head] at h
    have hr : some (1, Event.skipped) = some r := by simpa [scanner, head, ha] using h
    rw [← hr]
    cases u <;> simp [scanner, head, ha]
  · simp only [scanner_head, List.cons_append] at h ⊢
    rw [head] at h ⊢
    split_ifs at h ⊢ with hab
    · have hu : candidate (a :: b :: rest) ≠ .wait → candidate (a :: b :: (rest ++ u)) =
          candidate (a :: b :: rest) := candidate_append u
      cases hc : candidate (a :: b :: rest) with
      | wait => simp [hc] at h
      | badHeader => rw [hu (by simp [hc]), hc, ← h, hc]
      | badTrailer => rw [hu (by simp [hc]), hc, ← h, hc]
      | complete n =>
        have htake : (a :: b :: (rest ++ u)).take n = (a :: b :: rest).take n := by
          rw [← List.cons_append, ← List.cons_append]
          exact List.take_append_of_le_length (candidate_pos hc).2
        simp only [hc] at h
        simp only [hu (by simp [hc]), hc, htake, h]
    · exact h

/-! ## The loop is the scan -/

/-- The frames among the events. -/
def framesOf (evs : List (List UInt8 × Event)) : List Frame :=
  evs.filterMap fun x => if x.2 = .frame then some ⟨.sbg, x.1⟩ else none

/-- The stats after one event. -/
def FramerStats.record (st : FramerStats) (x : List UInt8 × Event) : FramerStats :=
  match x.2 with
  | .skipped => { st with bytesSkipped := st.bytesSkipped + x.1.length }
  | .rejected crc =>
    { st with
      crcFailed := st.crcFailed + crc.toNat, resyncs := st.resyncs + 1,
      bytesSkipped := st.bytesSkipped + x.1.length }
  | .extended => { st with extendedDropped := st.extendedDropped + 1 }
  | .frame => { st with frames := st.frames + 1 }

/-- The stats after the events, in order. -/
def FramerStats.tally (st : FramerStats) (evs : List (List UInt8 × Event)) : FramerStats :=
  evs.foldl FramerStats.record st

@[simp] theorem framesOf_append (evs evs' : List (List UInt8 × Event)) :
    framesOf (evs ++ evs') = framesOf evs ++ framesOf evs' := by
  simp [framesOf]

@[simp] theorem FramerStats.tally_append (st : FramerStats) (evs evs' : List (List UInt8 × Event)) :
    st.tally (evs ++ evs') = (st.tally evs).tally evs' := by
  simp [FramerStats.tally]

/-- A scan's frames, stats and leftover, as `feed` leaves them in `f`. -/
def SbgFramer.absorb (f : SbgFramer) (r : List (List UInt8 × Event) × List UInt8) :
    List Frame × SbgFramer :=
  (framesOf r.1, { buf := r.2, stats := f.stats.tally r.1 })

/-- Bytes skipped one at a time. -/
def skips (l : List UInt8) : List (List UInt8 × Event) := l.map fun x => ([x], .skipped)

theorem framesOf_skips (l : List UInt8) : framesOf (skips l) = [] := by
  simp [framesOf, skips]

theorem tally_skips (l : List UInt8) (st : FramerStats) :
    st.tally (skips l) = { st with bytesSkipped := st.bytesSkipped + l.length } := by
  induction l generalizing st with
  | nil => rfl
  | cons x l ih =>
    have hcons : st.tally (skips (x :: l)) =
        FramerStats.tally { st with bytesSkipped := st.bytesSkipped + 1 } (skips l) := rfl
    rw [hcons, ih, List.length_cons]
    simp only [FramerStats.mk.injEq, true_and]
    omega

theorem scan_skip {a : UInt8} {rest : List UInt8} (h : head (a :: rest) = some (1, .skipped)) :
    scanner.scan (a :: rest) =
      (skips [a] ++ (scanner.scan rest).1, (scanner.scan rest).2) :=
  scanner.scan_of_some h

/-- Up to the first sync pair everything is skipped. -/
theorem scan_of_findSync : ∀ {buf : List UInt8} {start : ℕ}, findSync buf = some start →
    start ≤ buf.length ∧ (∃ rest, buf.drop start = sync1 :: sync2 :: rest) ∧
      scanner.scan buf = (skips (buf.take start) ++ (scanner.scan (buf.drop start)).1,
        (scanner.scan (buf.drop start)).2)
  | a :: b :: rest, start, h => by
    rw [findSync] at h
    split_ifs at h with hab
    · obtain ⟨rfl, rfl⟩ := hab
      obtain rfl : 0 = start := by simpa using h
      exact ⟨by simp, ⟨rest, rfl⟩, rfl⟩
    · obtain ⟨j, hj, rfl⟩ := Option.map_eq_some_iff.1 h
      obtain ⟨hle, hpair, hscan⟩ := scan_of_findSync hj
      refine ⟨by simpa using hle, hpair, ?_⟩
      rw [scan_skip (by simp [head, hab]), hscan]
      rfl
  | [a], start, h => by simp [findSync] at h
  | [], start, h => by simp [findSync] at h

/-- Without a sync pair everything is skipped, a last `FF` excepted. -/
theorem scan_of_no_sync : ∀ {buf : List UInt8}, findSync buf = none →
    scanner.scan buf = (skips (buf.take (buf.length - keep buf)),
      buf.drop (buf.length - keep buf))
  | [], _ => scanner.scan_of_none scanner.head_nil
  | [a], _ => by
    by_cases ha : a = sync1
    · have hhead : scanner.head [a] = none := by simp [scanner, head, ha]
      rw [scanner.scan_of_none hhead]
      simp [keep, ha, skips]
    · rw [scan_skip (by simp [head, ha]), scanner.scan_of_none scanner.head_nil]
      simp [keep, ha, skips]
  | a :: b :: rest, h => by
    rw [findSync] at h
    split_ifs at h with hab
    have hrec := scan_of_no_sync (Option.map_eq_none_iff.1 h)
    have hkeep : keep (a :: b :: rest) = keep (b :: rest) := by simp [keep]
    have hle : keep (b :: rest) ≤ 1 := by
      unfold keep
      split_ifs <;> omega
    have hlen : (a :: b :: rest).length - keep (a :: b :: rest) =
        (b :: rest).length - keep (b :: rest) + 1 := by
      rw [hkeep, List.length_cons, List.length_cons]
      omega
    rw [scan_skip (by simp [head, hab]), hrec, hlen]
    rfl

theorem SbgFramer.loop_eq : ∀ (k : ℕ) (f : SbgFramer), f.buf.length ≤ k →
    f.loop k = f.absorb (scanner.scan f.buf)
  | 0, ⟨[], st⟩, _ => by
    rw [scanner.scan_of_none scanner.head_nil]
    rfl
  | 0, ⟨_ :: _, st⟩, h => by simp at h
  | k + 1, ⟨buf, st⟩, h => by
    by_cases hnil : buf = []
    · subst hnil
      rw [scanner.scan_of_none scanner.head_nil]
      rfl
    rw [loop, if_neg hnil]
    dsimp only at h
    cases hfind : findSync buf with
    | none =>
      simp only [scan_of_no_sync hfind, skip, absorb, framesOf_skips, tally_skips]
      have hle : buf.length - keep buf ≤ buf.length := Nat.sub_le _ _
      simp [hle]
    | some start =>
      obtain ⟨hle, ⟨rest, hpair⟩, hscan⟩ := scan_of_findSync hfind
      have hlen := congrArg List.length hpair
      simp only [List.length_drop, List.length_cons] at hlen
      have hskip : (⟨buf, st⟩ : SbgFramer).absorb (scanner.scan buf) =
          ((⟨buf, st⟩ : SbgFramer).skip start).absorb
            (scanner.scan ((⟨buf, st⟩ : SbgFramer).skip start).buf) := by
        simp [hscan, absorb, skip, framesOf_skips, tally_skips, hle]
      rw [hskip]
      have hbuf : ((⟨buf, st⟩ : SbgFramer).skip start).buf = sync1 :: sync2 :: rest := hpair
      dsimp only
      generalize (⟨buf, st⟩ : SbgFramer).skip start = f at hbuf ⊢
      obtain ⟨b, st'⟩ := f
      obtain rfl : b = sync1 :: sync2 :: rest := hbuf
      cases hc : candidate (sync1 :: sync2 :: rest) with
      | wait =>
        have hhead : scanner.head (sync1 :: sync2 :: rest) = none := by simp [scanner, head, hc]
        rw [scanner.scan_of_none hhead]
        rfl
      | badHeader =>
        have hhead : scanner.head (sync1 :: sync2 :: rest) = some (1, .rejected false) := by
          simp [scanner, head, hc]
        simp only
        rw [loop_eq k _ (by simp [skipOne]; omega), scanner.scan_of_some hhead]
        rfl
      | badTrailer =>
        have hhead : scanner.head (sync1 :: sync2 :: rest) = some (1, .rejected true) := by
          simp [scanner, head, hc]
        simp only
        rw [loop_eq k _ (by simp [skipOne, failCrc]; omega), scanner.scan_of_some hhead]
        rfl
      | complete n =>
        have hn := candidate_pos hc
        simp only
        cases hext : isExtended ((sync1 :: sync2 :: rest).take n) with
        | true =>
          have hhead : scanner.head (sync1 :: sync2 :: rest) = some (n, .extended) := by
            simp [scanner, head, hc, hext]
          rw [if_pos rfl, loop_eq k _ (by simp [dropExtended]; omega),
            scanner.scan_of_some hhead]
          rfl
        | false =>
          have hhead : scanner.head (sync1 :: sync2 :: rest) = some (n, .frame) := by
            simp [scanner, head, hc, hext]
          rw [if_neg (by simp), loop_eq k _ (by simp [emit]; omega), scanner.scan_of_some hhead]
          rfl

/-- `feed` is one scan of what is held and what comes. -/
theorem SbgFramer.feed_eq_scan (f : SbgFramer) (data : List UInt8) :
    f.feed data = f.absorb (scanner.scan (f.buf ++ data)) :=
  loop_eq _ _ le_rfl

theorem SbgFramer.feedAll_absorb : ∀ (ps : List (List UInt8)) (f : SbgFramer)
    (r : List (List UInt8 × Event) × List UInt8),
      framesOf r.1 ++ ((f.absorb r).2.feedAll ps).1 =
          (f.absorb (ps.foldl scanner.resume r)).1 ∧
        ((f.absorb r).2.feedAll ps).2 = (f.absorb (ps.foldl scanner.resume r)).2
  | [], f, r => by simp [feedAll, absorb]
  | p :: ps, f, r => by
    have hfeed : (f.absorb r).2.feed p = (f.absorb r).2.absorb (scanner.scan (r.2 ++ p)) :=
      feed_eq_scan _ p
    have habs : ((f.absorb r).2.feed p).2 = (f.absorb (scanner.resume r p)).2 := by
      rw [hfeed]
      simp [absorb, Scanner.resume]
    obtain ⟨ih₁, ih₂⟩ := feedAll_absorb ps f (scanner.resume r p)
    rw [feedAll, habs, List.foldl_cons]
    refine ⟨?_, ih₂⟩
    rw [← ih₁, hfeed]
    simp [absorb, Scanner.resume]

/-- A fresh framer fed a stream in any pieces has scanned the stream. -/
theorem SbgFramer.fresh_feedAll (ps : List (List UInt8)) :
    ({} : SbgFramer).feedAll ps = ({} : SbgFramer).absorb (scanner.scan ps.flatten) := by
  obtain ⟨h₁, h₂⟩ := feedAll_absorb ps {} ([], [])
  rw [← scanner_stable.foldl_resume]
  exact Prod.ext h₁ h₂

end Sbg

end Mtrtk
