import Mtrtk.Crc
import Mtrtk.Scan

/-!
# The core framer

`core/frames.py` : `Framer.feed` splits a mixed UBX / RTCM3 / NMEA byte stream into
frames. `tryUbx`, `tryRtcm` and `tryNmea` are the source's `_try_*`, as decisions on the
buffer : wait for more bytes (`None`), resynchronise one byte later (`False`), or emit.
`Framer.feed` is the source's loop, with its overflow branch and its skip to the next
sync byte.

`coreScanner` is the same decisions one byte of garbage at a time, and
`Framer.feed_eq_scan` says the loop computes exactly its scan : the frames are the
frame events, the stats their tally. The time stamps of a `Frame`, its lazy parse and its
`identity` are left out.
-/

namespace Mtrtk

/-- `Proto`. -/
inductive Proto
  | ubx | rtcm3 | nmea | sbg | vn
  deriving DecidableEq, Repr

/-- `Frame` : one complete frame with its raw bytes. -/
structure Frame where
  proto : Proto
  raw : List UInt8
  deriving DecidableEq, Repr

def ubxSync1 : UInt8 := 0xB5
def ubxSync2 : UInt8 := 0x62
def rtcmPreamble : UInt8 := 0xD3
/-- `$`. -/
def nmeaStart : UInt8 := 0x24
def ubxMaxPayload : ℕ := 8192
def nmeaMaxLen : ℕ := 256

/-- Membership of `_SYNC_BYTES`. -/
def isSync (b : UInt8) : Bool := b == ubxSync1 || b == rtcmPreamble || b == nmeaStart

/-- `buf[i]`, read where the length checks put `i` in range. -/
def byteAt (buf : List UInt8) (i : ℕ) : UInt8 := buf.getD i 0

/-- `buf[a:b]`. -/
def slice (buf : List UInt8) (a b : ℕ) : List UInt8 := (buf.take b).drop a

/-- What a `_try_*` answers : `None`, `False` (with `checksum` where it adds one to
`checksum_errors`), or the protocol and length handed to `_emit`. -/
inductive Attempt
  | wait
  | reject (checksum : Bool)
  | emit (proto : Proto) (total : ℕ)
  deriving DecidableEq, Repr

/-! ## One attempt for each protocol -/

/-- The payload length of a UBX header. -/
def ubxLength (buf : List UInt8) : ℕ := (byteAt buf 4).toNat ||| ((byteAt buf 5).toNat <<< 8)

/-- `_try_ubx`. -/
def tryUbx (buf : List UInt8) : Attempt :=
  if buf.length < 2 then .wait
  else if byteAt buf 1 ≠ ubxSync2 then .reject false
  else if buf.length < 6 then .wait
  else if ubxLength buf > ubxMaxPayload then .reject false
  else
    let total := 6 + ubxLength buf + 2
    if buf.length < total then .wait
    else if slice buf (total - 2) total ≠ ubxChecksum (slice buf 2 (total - 2)) then .reject true
    else .emit .ubx total

/-- The payload length of an RTCM3 header. -/
def rtcmLength (buf : List UInt8) : ℕ :=
  (((byteAt buf 1).toNat &&& 0x03) <<< 8) ||| (byteAt buf 2).toNat

/-- `_try_rtcm`. -/
def tryRtcm (buf : List UInt8) : Attempt :=
  if buf.length < 3 then .wait
  else if (byteAt buf 1).toNat &&& 0xFC ≠ 0 then .reject false
  else
    let total := 3 + rtcmLength buf + 3
    if buf.length < total then .wait
    else
      let expected := crc24q (buf.take (3 + rtcmLength buf))
      let got := ((byteAt buf (total - 3)).toNat <<< 16) ||| ((byteAt buf (total - 2)).toNat <<< 8)
        ||| (byteAt buf (total - 1)).toNat
      if expected ≠ got then .reject true else .emit .rtcm3 total

/-- `bytes.find(b"\r\n")`. -/
def findCrlf : List UInt8 → Option ℕ
  | a :: b :: rest =>
    if a = 0x0D ∧ b = 0x0A then some 0 else (findCrlf (b :: rest)).map (· + 1)
  | _ => none

/-- `bytes.rfind(b"*")`. -/
def rfindStar : List UInt8 → Option ℕ
  | [] => none
  | a :: rest =>
    match rfindStar rest with
    | some i => some (i + 1)
    | none => if a = 0x2A then some 0 else none

/-- The value of one hexadecimal digit. -/
def hexDigit (b : UInt8) : Option ℕ :=
  if 0x30 ≤ b ∧ b ≤ 0x39 then some (b.toNat - 0x30)
  else if 0x41 ≤ b ∧ b ≤ 0x46 then some (b.toNat - 0x41 + 10)
  else if 0x61 ≤ b ∧ b ≤ 0x66 then some (b.toNat - 0x61 + 10)
  else none

/-- ASCII white space, as `int()` strips it. -/
def isSpace (b : UInt8) : Bool := b == 0x20 || (0x09 ≤ b && b ≤ 0x0D)

/-- `int(field, 16)` on the two bytes between `*` and CR LF, `none` for its `ValueError`.
Python takes a sign or a blank in place of one of the digits. -/
def parseHexField : List UInt8 → Option ℤ
  | [a, b] =>
    match hexDigit a, hexDigit b with
    | some x, some y => some (16 * x + y)
    | some x, none => if isSpace b then some x else none
    | none, some y =>
      if isSpace a || a == 0x2B then some y else if a == 0x2D then some (-y) else none
    | none, none => none
  | _ => none

/-- The rest of `_try_nmea` once the first CR LF is found at `stop`. -/
def nmeaSentence (buf : List UInt8) (stop : ℕ) : Attempt :=
  match rfindStar (buf.take stop) with
  | none => .reject false
  | some star =>
    if stop - star ≠ 3 then .reject false
    else
      match parseHexField (slice buf (star + 1) stop) with
      | none => .reject false
      | some given =>
        if given ≠ nmeaChecksum (slice buf 1 star) then .reject true else .emit .nmea (stop + 2)

/-- `_try_nmea`. -/
def tryNmea (buf : List UInt8) : Attempt :=
  match findCrlf (buf.take (nmeaMaxLen + 2)) with
  | none => if buf.length < nmeaMaxLen then .wait else .reject false
  | some stop => nmeaSentence buf stop

/-- The dispatch of `feed` on the first byte, a sync byte. -/
def attempt (buf : List UInt8) : Attempt :=
  if byteAt buf 0 = ubxSync1 then tryUbx buf
  else if byteAt buf 0 = rtcmPreamble then tryRtcm buf
  else tryNmea buf

/-! ## `Framer.feed` -/

/-- `FramerStats`, one field for each key of `frames`. -/
structure FramerStats where
  ubx : ℕ := 0
  rtcm3 : ℕ := 0
  nmea : ℕ := 0
  garbageBytes : ℕ := 0
  checksumErrors : ℕ := 0
  deriving DecidableEq, Repr

/-- `self.stats.frames[proto.value] += 1`. The core framer emits no vendor frame. -/
def FramerStats.count (st : FramerStats) : Proto → FramerStats
  | .ubx => { st with ubx := st.ubx + 1 }
  | .rtcm3 => { st with rtcm3 := st.rtcm3 + 1 }
  | .nmea => { st with nmea := st.nmea + 1 }
  | .sbg => st
  | .vn => st

/-- `self.stats.garbage_bytes += n`. -/
def FramerStats.garbage (st : FramerStats) (n : ℕ) : FramerStats :=
  { st with garbageBytes := st.garbageBytes + n }

/-- `self.stats.checksum_errors += 1` where the attempt says so. -/
def FramerStats.checksum (st : FramerStats) (checksum : Bool) : FramerStats :=
  { st with checksumErrors := st.checksumErrors + checksum.toNat }

/-- `Framer`. -/
structure Framer where
  buf : List UInt8 := []
  maxBuffer : ℕ := 1 <<< 20
  stats : FramerStats := {}
  deriving DecidableEq, Repr

namespace Framer

/-- `_next_sync` : the first sync byte after the head, or the end. -/
def nextSync (buf : List UInt8) : ℕ := 1 + buf.tail.findIdx isSync

/-- `_emit`. -/
def emit (f : Framer) (proto : Proto) (length : ℕ) : Frame × Framer :=
  (⟨proto, f.buf.take length⟩, { f with buf := f.buf.drop length, stats := f.stats.count proto })

/-- The `while` loop of `feed`, at most `k` rounds. -/
def loop : ℕ → Framer → List Frame × Framer
  | 0, f => ([], f)
  | k + 1, f =>
    match f.buf with
    | [] => ([], f)
    | first :: _ =>
      if isSync first then
        match attempt f.buf with
        | .wait => ([], f)
        | .reject checksum =>
          loop k { f with buf := f.buf.drop 1, stats := (f.stats.checksum checksum).garbage 1 }
        | .emit proto total =>
          ((f.emit proto total).1 :: (loop k (f.emit proto total).2).1,
            (loop k (f.emit proto total).2).2)
      else
        loop k { f with buf := f.buf.drop (nextSync f.buf),
                        stats := f.stats.garbage (nextSync f.buf) }

/-- `feed`. Every round of the loop shortens the buffer, so its length is enough rounds. -/
def feed (f : Framer) (data : List UInt8) : List Frame × Framer :=
  let buf := f.buf ++ data
  let f :=
    if buf.length > f.maxBuffer then
      { f with buf := buf.drop (buf.length - f.maxBuffer),
               stats := f.stats.garbage (buf.length - f.maxBuffer) }
    else { f with buf := buf }
  f.loop f.buf.length

/-- The pieces of a stream, fed in order. -/
def feedAll (f : Framer) : List (List UInt8) → List Frame × Framer
  | [] => ([], f)
  | p :: ps => ((f.feed p).1 ++ ((f.feed p).2.feedAll ps).1, ((f.feed p).2.feedAll ps).2)

/-- No piece makes the buffer exceed `max_buffer`. -/
def NoOverflow (f : Framer) : List (List UInt8) → Prop
  | [] => True
  | p :: ps => f.buf.length + p.length ≤ f.maxBuffer ∧ (f.feed p).2.NoOverflow ps

end Framer

end Mtrtk
