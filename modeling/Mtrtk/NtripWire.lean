import Mtrtk.HexText
import Mtrtk.NtripRequest

/-!
# The caster's stream on the wire

What `base/ntrip_caster.py` writes to a rover : the head of the response (`_stream_response`) and
one frame after the other (`_Client.wire`), bare for version 1 and as HTTP chunks for version 2.
A chunk begins with its size in hexadecimal, and the chunk of the empty frame ends the body.
-/

namespace Mtrtk

/-- `SERVER_NAME`. -/
def serverName : Str := "mtrtk/".toList ++ version

/-- The lines of the version 2 response. -/
def streamLines : List Str :=
  ["HTTP/1.1 200 OK".toList, "Ntrip-Version: Ntrip/2.0".toList,
    "Server: ".toList ++ serverName, "Content-Type: gnss/data".toList,
    "Transfer-Encoding: chunked".toList,
    "Cache-Control: no-store, no-cache, max-age=0".toList, "Pragma: no-cache".toList,
    "Connection: close".toList]

/-- `_stream_response`. -/
def streamResponse (v2 : Bool) : List UInt8 :=
  if v2 then encode (streamLines.flatMap (· ++ crlf) ++ crlf)
  else encode ("ICY 200 OK".toList ++ crlf ++ crlf)

/-! ## Frames -/

/-- `\r\n`. -/
def crlfBytes : List UInt8 := [0x0D, 0x0A]

/-- `_Client.wire`, of a client that speaks version 2 or 1. -/
def clientWire (v2 : Bool) (raw : List UInt8) : List UInt8 :=
  if v2 then formatHex raw.length ++ crlfBytes ++ raw ++ crlfBytes else raw

end Mtrtk
