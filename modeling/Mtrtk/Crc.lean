import Mathlib.Logic.Function.Iterate

/-!
# Checksums of the GNSS wire protocols

`core/crc.py` : the 8-bit Fletcher checksum of UBX, CRC-24Q of RTCM 3 by its table, and
the XOR of an NMEA sentence. Bytes are `UInt8`, the Python ints they are folded into are
naturals.
-/

namespace Mtrtk

/-- `ubx_checksum` : 8-bit Fletcher over class, id, length and payload, as `CK_A, CK_B`.
The source's `& 0xFF` is the wrap of `UInt8` addition. -/
def ubxChecksum (data : List UInt8) : List UInt8 :=
  let ck := data.foldl (fun (ck : UInt8 × UInt8) byte => (ck.1 + byte, ck.2 + (ck.1 + byte)))
    (0, 0)
  [ck.1, ck.2]

/-- One of the eight shifts of `_build_crc24q_table`. -/
def crc24qShift (crc : ℕ) : ℕ :=
  if (crc <<< 1) &&& 0x1000000 ≠ 0 then (crc <<< 1) ^^^ 0x1864CFB else crc <<< 1

/-- `_build_crc24q_table`. -/
def buildCrc24qTable : List ℕ :=
  (List.range 256).map fun i => crc24qShift^[8] (i <<< 16) &&& 0xFFFFFF

/-- `crc24q` : CRC-24Q from the table, init 0. -/
def crc24q (data : List UInt8) : ℕ :=
  data.foldl (fun crc byte =>
    ((crc <<< 8) &&& 0xFFFFFF) ^^^
      buildCrc24qTable.getD (((crc >>> 16) ^^^ byte.toNat) &&& 0xFF) 0) 0

/-- `nmea_checksum` : XOR of every byte between `$` and `*`. -/
def nmeaChecksum (body : List UInt8) : ℕ :=
  body.foldl (fun result byte => result ^^^ byte.toNat) 0

end Mtrtk
