import Mtrtk.FrameScan
import Mtrtk.HexText
import Mtrtk.VnFields

/-!
# The VectorNav framer

`rover/drivers/vectornav/framer.py` and its checksums : `VnFramer.feed` finds binary frames
and ASCII lines in a byte stream. `tryBinary` and `tryAscii` are the source's `_try_*` as
decisions on the buffer, with the counter a rejection adds to.

No answer is changed by later bytes (`attempt_append`) : not a binary one because `walk`
answers the same, not an ASCII one because the line ends at the first byte that is no text.
The framer waits on no more than `MAX_PENDING` bytes (`attempt_wait`). The time stamps of a
`Frame` are left out.
-/

namespace Mtrtk

namespace Vn

/-! ## `checksum.py` -/

/-- One of the eight shifts of `_crc_table`. -/
def xmodemShift (crc : ℕ) : ℕ :=
  if crc &&& 0x8000 ≠ 0 then (crc <<< 1) ^^^ 0x1021 else crc <<< 1

/-- `_crc_table`. -/
def xmodemTable : List ℕ :=
  (List.range 256).map fun byte => xmodemShift^[8] (byte <<< 8) &&& 0xFFFF

/-- `crc16_xmodem`. -/
def crc16Xmodem (data : List UInt8) : ℕ :=
  data.foldl (fun crc b =>
    ((crc <<< 8) &&& 0xFFFF) ^^^ xmodemTable.getD (((crc >>> 8) ^^^ b.toNat) &&& 0xFF) 0) 0

/-- `xor8`. -/
def xor8 (data : List UInt8) : ℕ := data.foldl (fun cs b => cs ^^^ b.toNat) 0

/-- `verify_ascii`. -/
def verifyAscii (line : List UInt8) : Bool :=
  let text := line.rdropWhile fun b => b = 0x0D ∨ b = 0x0A
  if text.head? ≠ some 0x24 then false
  else
    match rfindStar text with
    | none => false
    | some star =>
      let body := slice text 1 star
      let given := text.drop (star + 1)
      match parseInt given with
      | none => false
      | some value =>
        if given.length = 2 then value = xor8 body
        else if given.length = 4 then value = crc16Xmodem body
        else false

/-! ## `framer.py` -/

def binSync : UInt8 := 0xFA
/-- `$`. -/
def asciiStart : UInt8 := 0x24
def asciiMaxLen : ℕ := 512
def maxPending : ℕ := 8 * 1024
def maxBuffer : ℕ := 1 <<< 20

/-- Membership of `_SYNC`. -/
def isSync (b : UInt8) : Bool := b == binSync || b == asciiStart

/-- `b"$VN"`. -/
def asciiPrefix : List UInt8 := [0x24, 0x56, 0x4E]

/-- The counter a rejection adds to. -/
inductive Fault
  | none
  | invalidHeader
  | crcFailed
  deriving DecidableEq, Repr

/-- What a `_try_*` answers : `None`, `False`, or the length handed to `_emit`. -/
inductive Result
  | wait
  | reject (fault : Fault)
  | emit (ascii : Bool) (total : ℕ)
  deriving DecidableEq, Repr

/-- `_try_binary`. -/
def tryBinary (buf : List UInt8) : Result :=
  match binaryLength.on buf with
  | .error _ => .reject .invalidHeader
  | .ok none => if buf.length > maxPending then .reject .none else .wait
  | .ok (some total) =>
    if total > maxPending then .reject .invalidHeader
    else if buf.length < total then .wait
    else if crc16Xmodem (slice buf 1 total) ≠ 0 then .reject .crcFailed
    else .emit false total

/-- The loop of `_try_ascii` over the indices left. -/
def asciiLoop (buf : List UInt8) : List ℕ → Result
  | [] => if buf.length ≥ asciiMaxLen + 2 then .reject .none else .wait
  | i :: is =>
    if byteAt buf i = 0x0D then
      if i + 1 ≥ buf.length then .wait
      else if byteAt buf (i + 1) ≠ 0x0A then .reject .none
      else if verifyAscii (buf.take (i + 2)) then .emit true (i + 2)
      else .reject .crcFailed
    else if ¬(0x20 ≤ byteAt buf i ∧ byteAt buf i ≤ 0x7E) then .reject .none
    else asciiLoop buf is

/-- `_try_ascii`. -/
def tryAscii (buf : List UInt8) : Result :=
  if ¬(buf.take 3).isPrefixOf asciiPrefix then .reject .none
  else if (buf.take 3).length < 3 then .wait
  else asciiLoop buf (List.range' 3 (min buf.length (asciiMaxLen + 2) - 3))

/-- `VnFramerStats`. -/
structure VnFramerStats where
  frames : ℕ := 0
  asciiFrames : ℕ := 0
  crcFailed : ℕ := 0
  resyncs : ℕ := 0
  bytesSkipped : ℕ := 0
  invalidHeaders : ℕ := 0
  deriving DecidableEq, Repr

/-- The stats, and `_skipping`. -/
structure Counters where
  stats : VnFramerStats := {}
  skipping : Bool := false
  deriving DecidableEq, Repr

namespace Counters

/-- `_skip`, but for the buffer. -/
def skip (c : Counters) (n : ℕ) : Counters where
  stats := { c.stats with
    bytesSkipped := c.stats.bytesSkipped + n
    resyncs := if c.skipping then c.stats.resyncs else c.stats.resyncs + 1 }
  skipping := true

/-- `invalid_headers += 1` or `crc_failed += 1`. -/
def count (c : Counters) : Fault → Counters
  | .none => c
  | .invalidHeader =>
    { c with stats := { c.stats with invalidHeaders := c.stats.invalidHeaders + 1 } }
  | .crcFailed => { c with stats := { c.stats with crcFailed := c.stats.crcFailed + 1 } }

/-- `_emit`, but for the buffer, and `ascii_frames += 1` for a line. -/
def emit (c : Counters) (ascii : Bool) : Counters where
  stats := { c.stats with
    frames := c.stats.frames + 1
    asciiFrames := c.stats.asciiFrames + ascii.toNat }
  skipping := false

end Counters

/-- `VnFramer`. -/
structure VnFramer where
  buf : List UInt8 := []
  counters : Counters := {}
  deriving DecidableEq, Repr

/-- The dispatch of `feed` on the first byte, a sync byte. -/
def attempt (buf : List UInt8) : Result :=
  if byteAt buf 0 = binSync then tryBinary buf else tryAscii buf

namespace VnFramer

/-- `_next_sync` : the first sync byte after the head, or the end. -/
def nextSync (buf : List UInt8) : ℕ := 1 + buf.tail.findIdx isSync

/-- `_skip`. -/
def skip (f : VnFramer) (n : ℕ) : VnFramer := ⟨f.buf.drop n, f.counters.skip n⟩

/-- The `while` loop of `feed`, at most `k` rounds. -/
def loop : ℕ → VnFramer → List Frame × VnFramer
  | 0, f => ([], f)
  | k + 1, f =>
    match f.buf with
    | [] => ([], f)
    | first :: _ =>
      if isSync first then
        match attempt f.buf with
        | .wait => ([], f)
        | .reject fault => loop k (skip ⟨f.buf, f.counters.count fault⟩ 1)
        | .emit ascii total =>
          let f' := ⟨f.buf.drop total, f.counters.emit ascii⟩
          (⟨.vn, f.buf.take total⟩ :: (loop k f').1, (loop k f').2)
      else loop k (f.skip (nextSync f.buf))

/-- `feed`. Every round that goes on shortens the buffer, so its length is enough rounds. -/
def feed (f : VnFramer) (data : List UInt8) : List Frame × VnFramer :=
  let f := { f with buf := f.buf ++ data }
  let f := if f.buf.length > maxBuffer then f.skip (f.buf.length - maxBuffer) else f
  f.loop f.buf.length

/-- The pieces of a stream, fed in order. -/
def feedAll (f : VnFramer) : List (List UInt8) → List Frame × VnFramer
  | [] => ([], f)
  | p :: ps => ((f.feed p).1 ++ ((f.feed p).2.feedAll ps).1, ((f.feed p).2.feedAll ps).2)

/-- No piece makes the buffer exceed `MAX_BUFFER`. -/
def NoOverflow (f : VnFramer) : List (List UInt8) → Prop
  | [] => True
  | p :: ps => f.buf.length + p.length ≤ maxBuffer ∧ (f.feed p).2.NoOverflow ps

end VnFramer

/-! ## Attempts and later bytes -/

theorem maxWait_le_maxPending : maxWait ≤ maxPending := by
  have := maxWait_eq
  have : maxPending = 8192 := rfl
  omega

/-- A length is unknown only for a short while. -/
theorem length_of_binaryLength {buf : List UInt8} (h : binaryLength.on buf = .ok none) :
    buf.length < maxPending :=
  lt_of_lt_of_le (binaryLength_reads.short buf h) maxWait_le_maxPending

theorem tryBinary_append {buf : List UInt8} (c : List UInt8) (h : tryBinary buf ≠ .wait) :
    tryBinary (buf ++ c) = tryBinary buf := by
  have hlen : buf.length ≤ (buf ++ c).length := by simp
  unfold tryBinary at h ⊢
  cases hb : binaryLength.on buf with
  | error e => rw [binaryLength_reads.settled buf c (by simp [hb]), hb]
  | ok r =>
    cases r with
    | none =>
      have := length_of_binaryLength hb
      rw [hb] at h
      exact absurd (if_neg (by omega)) h
    | some total =>
      rw [binaryLength_reads.settled buf c (by simp [hb]), hb]
      simp only [hb] at h ⊢
      by_cases hmax : total > maxPending
      · rw [if_pos hmax, if_pos hmax]
      rw [if_neg hmax] at h
      rw [if_neg hmax, if_neg hmax]
      by_cases ht : buf.length < total
      · exact absurd (if_pos ht) h
      rw [if_neg ht, if_neg (by omega), slice_append c _ (by omega)]

theorem asciiLoop_append {buf : List UInt8} (c : List UInt8) (js : List ℕ)
    (hjs : buf.length ≥ asciiMaxLen + 2 → js = []) : ∀ is : List ℕ, (∀ i ∈ is, i < buf.length) →
      asciiLoop buf is ≠ .wait → asciiLoop (buf ++ c) (is ++ js) = asciiLoop buf is
  | [], _, h => by
    by_cases hlen : buf.length ≥ asciiMaxLen + 2
    · rw [hjs hlen, List.append_nil, asciiLoop, asciiLoop, if_pos hlen,
        if_pos (by rw [List.length_append]; omega)]
    · exact absurd (if_neg hlen) h
  | i :: is, his, h => by
    obtain ⟨hi, his⟩ := List.forall_mem_cons.1 his
    rw [asciiLoop] at h
    rw [List.cons_append, asciiLoop, asciiLoop, byteAt_append c hi]
    by_cases hcr : byteAt buf i = 0x0D
    · rw [if_pos hcr] at h
      rw [if_pos hcr, if_pos hcr]
      by_cases hend : i + 1 ≥ buf.length
      · exact absurd (if_pos hend) h
      rw [if_neg hend, if_neg (by rw [List.length_append]; omega), byteAt_append c (by omega),
        List.take_append_of_le_length (by omega)]
    · rw [if_neg hcr] at h
      rw [if_neg hcr, if_neg hcr]
      by_cases htext : ¬(0x20 ≤ byteAt buf i ∧ byteAt buf i ≤ 0x7E)
      · rw [if_pos htext, if_pos htext]
      rw [if_neg htext] at h
      rw [if_neg htext, if_neg htext]
      exact asciiLoop_append c js hjs is his h

theorem tryAscii_append {buf : List UInt8} (c : List UInt8) (h : tryAscii buf ≠ .wait) :
    tryAscii (buf ++ c) = tryAscii buf := by
  unfold tryAscii at h ⊢
  by_cases hp : ¬(buf.take 3).isPrefixOf asciiPrefix
  · have hp' : ¬((buf ++ c).take 3).isPrefixOf asciiPrefix := fun hc => by
      rw [List.take_append] at hc
      exact hp (List.isPrefixOf_iff_prefix.2
        ((List.prefix_append _ _).trans (List.isPrefixOf_iff_prefix.1 hc)))
    rw [if_pos hp, if_pos hp']
  rw [if_neg hp] at h
  by_cases h3 : (buf.take 3).length < 3
  · exact absurd (if_pos h3) h
  have hlen : 3 ≤ buf.length := by
    rw [List.length_take] at h3
    omega
  have htake : (buf ++ c).take 3 = buf.take 3 := List.take_append_of_le_length hlen
  rw [if_neg h3] at h
  set k := min buf.length (asciiMaxLen + 2) - 3 with hk
  -- The indices of the longer buffer are those of the shorter one and what comes behind.
  obtain ⟨m, hm⟩ : ∃ m, min (buf ++ c).length (asciiMaxLen + 2) - 3 = k + m := by
    refine Nat.exists_eq_add_of_le ?_
    rw [List.length_append]
    omega
  rw [htake, if_neg hp, if_neg hp, if_neg h3, if_neg h3, hm, ← List.range'_append_1,
    asciiLoop_append c _ ?_ _ ?_ h]
  · intro hfull
    have hlong : (buf ++ c).length = buf.length + c.length := List.length_append
    obtain rfl : m = 0 := by omega
    rfl
  · intro i hi
    have := (List.mem_range'_1.1 hi).2
    omega

theorem asciiLoop_emit {buf : List UInt8} {ascii : Bool} {n : ℕ} : ∀ is : List ℕ,
    asciiLoop buf is = .emit ascii n → 0 < n ∧ n ≤ buf.length
  | [], h => by
    rw [asciiLoop] at h
    split_ifs at h
  | i :: is, h => by
    rw [asciiLoop] at h
    split_ifs at h
    · simp only [Result.emit.injEq] at h
      omega
    · exact asciiLoop_emit is h

theorem asciiLoop_wait {buf : List UInt8} : ∀ is : List ℕ, (∀ i ∈ is, i < asciiMaxLen + 2) →
    asciiLoop buf is = .wait → buf.length ≤ asciiMaxLen + 2
  | [], _, h => by
    rw [asciiLoop] at h
    split_ifs at h
    omega
  | i :: is, his, h => by
    obtain ⟨hi, his⟩ := List.forall_mem_cons.1 his
    rw [asciiLoop] at h
    split_ifs at h
    · omega
    · exact asciiLoop_wait is his h

theorem attempt_append {buf : List UInt8} (c : List UInt8) (hne : buf ≠ [])
    (h : attempt buf ≠ .wait) : attempt (buf ++ c) = attempt buf := by
  have h0 : byteAt (buf ++ c) 0 = byteAt buf 0 := byteAt_append c (List.length_pos_of_ne_nil hne)
  rw [attempt] at h
  rw [attempt, attempt, h0]
  by_cases hb : byteAt buf 0 = binSync
  · rw [if_pos hb] at h
    rw [if_pos hb, if_pos hb, tryBinary_append c h]
  · rw [if_neg hb] at h
    rw [if_neg hb, if_neg hb, tryAscii_append c h]

theorem attempt_emit {buf : List UInt8} {ascii : Bool} {n : ℕ}
    (h : attempt buf = .emit ascii n) : 0 < n ∧ n ≤ buf.length := by
  rw [attempt] at h
  split_ifs at h
  · unfold tryBinary at h
    split at h
    · simp at h
    · split_ifs at h
    next total hb =>
      have := binaryLength_reads.post buf total hb
      split_ifs at h
      simp only [Result.emit.injEq] at h
      omega
  · unfold tryAscii at h
    split_ifs at h
    exact asciiLoop_emit _ h

/-- What the framer waits on is no longer than `MAX_PENDING`. -/
theorem attempt_wait {buf : List UInt8} (h : attempt buf = .wait) : buf.length ≤ maxPending := by
  have hmax : maxPending = 8192 := rfl
  have hline : asciiMaxLen = 512 := rfl
  rw [attempt] at h
  split_ifs at h
  · unfold tryBinary at h
    split at h
    · simp at h
    next hb => exact (length_of_binaryLength hb).le
    · split_ifs at h
      omega
  · unfold tryAscii at h
    split_ifs at h with hp h3
    · rw [List.length_take] at h3
      omega
    · have := asciiLoop_wait _ (fun i hi => by
        have := (List.mem_range'_1.1 hi).2
        omega) h
      omega

end Vn

end Mtrtk
