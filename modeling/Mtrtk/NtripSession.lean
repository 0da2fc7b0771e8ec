import Mtrtk.FrameResync
import Mtrtk.NtripWire
import Mtrtk.StreamReader

/-!
# A session with the caster

`rover/ntrip_client.py` : `NtripClient._read_head`, `_classify`, `decode_chunked`, `_stream` and
`_session`, reading the caster's stream off a `StreamReader`. The driver takes every frame it is
given, and no wait runs into its timeout.

`session_injects` is the caster and the client end to end. In version 2 `decode_chunked` gives
back the frames one by one (`Decodes`), in version 1 the pieces are as the connection cuts them,
and either way the re-framer returns the frames that were written.
-/

namespace Mtrtk

def maxHeaders : ℕ := 64
def maxChunk : ℕ := 65536
def readSize : ℕ := 4096

/-- `ProtocolError`. -/
inductive ProtocolError
  | lineTooLong
  | badChunkSize (sizeLine : List UInt8)
  | chunkTooLarge (size : ℤ)
  | chunkNotTerminated
  deriving DecidableEq, Repr

/-- `_Response`, with what its message names. -/
inductive Response
  | unauthorized (username : Option Str)
  | mountNotFound (mountpoint host : Str)
  | tooManyHeaders
  | unexpected (statusLine : Str)
  deriving DecidableEq, Repr

/-- What ends a session. -/
inductive SessionError
  | connection (message : String)
  | protocol (error : ProtocolError)
  | incompleteRead
  | response (answer : Response)
  deriving DecidableEq, Repr

/-! ## Reading -/

/-- `_readline`. -/
def readLine (reader : StreamReader) : Except SessionError (List UInt8 × StreamReader) :=
  match reader.readline with
  | none => .error (.protocol .lineTooLong)
  | some got => .ok got

/-- `readexactly`, with its exception. -/
def readExactly (n : ℕ) (reader : StreamReader) :
    Except SessionError (List UInt8 × StreamReader) :=
  match reader.readexactly n with
  | none => .error .incompleteRead
  | some got => .ok got

/-- The rest of `decode_chunked`, once the size is read. -/
def readChunk (size : ℕ) (reader : StreamReader) :
    Except SessionError (List UInt8 × StreamReader) := do
  let (data, reader) ← readExactly size reader
  let (ending, reader) ← readExactly 2 reader
  if ending ≠ crlfBytes then .error (.protocol .chunkNotTerminated) else .ok (data, reader)

/-- `decode_chunked`. -/
def decodeChunked (reader : StreamReader) : Except SessionError (List UInt8 × StreamReader) := do
  let (sizeLine, reader) ← readLine reader
  if sizeLine = [] then .ok ([], reader)
  else
    match parseInt (stripBytes (sizeLine.takeWhile (· ≠ 0x3B))) with
    | none => .error (.protocol (.badChunkSize (sizeLine.take 20)))
    | some size =>
      if size = 0 then .ok ([], reader)
      else if size < 0 ∨ size > maxChunk then .error (.protocol (.chunkTooLarge size))
      else readChunk size.toNat reader

/-- What `_stream` awaits. -/
def nextData (chunked : Bool) (reader : StreamReader) :
    Except SessionError (List UInt8 × StreamReader) :=
  if chunked then decodeChunked reader else .ok (reader.read readSize)

/-! Every call consumes what it returns. -/

theorem readLine_left {reader reader' : StreamReader} {line : List UInt8}
    (h : readLine reader = .ok (line, reader')) : line ++ reader'.left = reader.left := by
  rw [readLine] at h
  cases hr : reader.readline with
  | none => simp [hr] at h
  | some got =>
    rw [hr] at h
    obtain rfl : got = (line, reader') := by simpa using h
    exact StreamReader.readline_left hr

theorem readExactly_left {n : ℕ} {reader reader' : StreamReader} {data : List UInt8}
    (h : readExactly n reader = .ok (data, reader')) : data ++ reader'.left = reader.left := by
  rw [readExactly] at h
  cases hr : reader.readexactly n with
  | none => simp [hr] at h
  | some got =>
    rw [hr] at h
    obtain rfl : got = (data, reader') := by simpa using h
    exact StreamReader.readexactly_left hr

/-- A step of a read that ends well. -/
theorem bind_eq_ok {ε α β : Type} {x : Except ε α} {f : α → Except ε β} {b : β}
    (h : x >>= f = .ok b) : ∃ a, x = .ok a ∧ f a = .ok b := by
  cases x with
  | error e => cases h
  | ok a => exact ⟨a, rfl, h⟩

theorem readChunk_lt {size : ℕ} {reader reader' : StreamReader} {data : List UInt8}
    (h : readChunk size reader = .ok (data, reader')) :
    data.length + reader'.left.length ≤ reader.left.length := by
  obtain ⟨⟨data₁, r₁⟩, h₁, h⟩ := bind_eq_ok h
  obtain ⟨⟨ending, r₂⟩, h₂, h⟩ := bind_eq_ok h
  have hlen₁ := congrArg List.length (readExactly_left h₁)
  have hlen₂ := congrArg List.length (readExactly_left h₂)
  dsimp only at h
  split at h
  · cases h
  · obtain ⟨rfl, rfl⟩ := Prod.ext_iff.1 (Except.ok.inj h)
    simp only [List.length_append] at hlen₁ hlen₂ ⊢
    omega

theorem decodeChunked_le {reader reader' : StreamReader} {data : List UInt8}
    (h : decodeChunked reader = .ok (data, reader')) :
    data.length + reader'.left.length ≤ reader.left.length := by
  obtain ⟨⟨sizeLine, r₁⟩, h₁, h⟩ := bind_eq_ok h
  have hlen := congrArg List.length (readLine_left h₁)
  rw [List.length_append] at hlen
  have hnil : ∀ r, Except.ok (ε := SessionError) (([] : List UInt8), r₁) = .ok (data, r) →
      data.length + r.left.length ≤ reader.left.length := fun r hr => by
    obtain ⟨rfl, rfl⟩ := Prod.mk.inj (Except.ok.inj hr)
    rw [List.length_nil]
    omega
  dsimp only at h
  split at h
  · exact hnil _ h
  · split at h
    · cases h
    · split_ifs at h
      · exact hnil _ h
      · have := readChunk_lt h
        omega

theorem nextData_lt {chunked : Bool} {reader reader' : StreamReader} {data : List UInt8}
    (h : nextData chunked reader = .ok (data, reader')) (hdata : data ≠ []) :
    reader'.left.length < reader.left.length := by
  have hpos := List.length_pos_of_ne_nil hdata
  rw [nextData] at h
  split at h
  · have := decodeChunked_le h
    omega
  · have hlen := congrArg List.length (StreamReader.read_spec (n := readSize) (by decide) reader).1
    obtain ⟨rfl, rfl⟩ := Prod.ext_iff.1 (Except.ok.inj h)
    rw [List.length_append] at hlen
    omega

/-! ## The head -/

/-- The headers read by `_read_head`, behind those it has. -/
def readHeaders (headers : List (Str × Str)) (reader : StreamReader) :
    Except SessionError (List (Str × Str) × StreamReader) :=
  match _h : readLine reader with
  | .error e => .error e
  | .ok (line, reader') =>
    if _hline : line = [] then .error (.connection "caster closed the connection mid-header")
    else if line = crlfBytes ∨ line = [StreamReader.newline] then .ok (headers, reader')
    else
      let headers' := headers ++ (parseHeader (decodeLatin1 line)).toList
      if (headers'.map Prod.fst).dedup.length > maxHeaders then .error (.response .tooManyHeaders)
      else readHeaders headers' reader'
termination_by reader.left.length
decreasing_by
  have hlen := congrArg List.length (readLine_left _h)
  have hpos := List.length_pos_of_ne_nil _hline
  rw [List.length_append] at hlen
  omega

/-- `_read_head` : the status line, the headers, and the reader behind them. -/
def readHead (reader : StreamReader) :
    Except SessionError (Str × List (Str × Str) × StreamReader) := do
  let (first, reader) ← readLine reader
  if first = [] then .error (.connection "caster closed the connection before answering")
  else
    let statusLine := strip (decodeLatin1 first)
    if "ICY ".toList.isPrefixOf statusLine ∨ "SOURCETABLE ".toList.isPrefixOf statusLine then
      .ok (statusLine, [], reader)
    else
      let (headers, reader) ← readHeaders [] reader
      .ok (statusLine, headers, reader)

/-- The second word of a status line. -/
def statusCode (statusLine : Str) : Str := (split [' '] statusLine).getD 1 []

/-- `_classify` : whether the stream is chunked, and the version. -/
def NtripClientConfig.classify (c : NtripClientConfig) (statusLine : Str)
    (headers : List (Str × Str)) : Except SessionError (Bool × ℕ) :=
  let code := statusCode statusLine
  if "ICY ".toList.isPrefixOf statusLine ∧ code = "200".toList then .ok (false, 1)
  else if "SOURCETABLE ".toList.isPrefixOf statusLine ∨ code = "404".toList ∨
      (code = "200".toList ∧
        occursIn "sourcetable".toList (lower (headerGet headers "content-type".toList))) then
    .error (.response (.mountNotFound c.mountpoint c.host))
  else if code = "401".toList then .error (.response (.unauthorized c.username))
  else if "HTTP/1.".toList.isPrefixOf statusLine ∧ code = "200".toList then
    .ok (occursIn "chunked".toList (lower (headerGet headers "transfer-encoding".toList)),
      if "ntrip-version".toList ∈ headers.map Prod.fst then 2 else 1)
  else .error (.response (.unexpected (statusLine.take 80)))

/-! ## The stream -/

/-- What a session did : the frames the driver was given, and its part of `NtripClientStatus`. -/
structure ClientSession where
  injected : List (List UInt8) := []
  version : Option ℕ := none
  bytesReceived : ℕ := 0
  framesInjected : ℕ := 0
  crcDropped : ℕ := 0
  deriving DecidableEq, Repr

/-- The RTCM3 frames among the frames. -/
def rtcmRaws (frames : List Frame) : List (List UInt8) :=
  (frames.filter fun frame => frame.proto = .rtcm3).map Frame.raw

/-- One round of `_stream` : the frames of `data` go to the driver. -/
def ClientSession.receive (s : ClientSession) (framer : Framer) (data : List UInt8) :
    ClientSession :=
  let (frames, framer') := framer.feed data
  { s with
    injected := s.injected ++ rtcmRaws frames
    bytesReceived := s.bytesReceived + data.length
    framesInjected := s.framesInjected + (rtcmRaws frames).length
    crcDropped := s.crcDropped + (framer'.stats.checksumErrors - framer.stats.checksumErrors) }

/-- `_stream`. -/
def stream (chunked : Bool) (framer : Framer) (s : ClientSession) (reader : StreamReader) :
    ClientSession × SessionError :=
  match _h : nextData chunked reader with
  | .error e => (s, e)
  | .ok (data, reader') =>
    if _hdata : data = [] then (s, .connection "caster closed the connection")
    else stream chunked (framer.feed data).2 (s.receive framer data) reader'
termination_by reader.left.length
decreasing_by exact nextData_lt _h _hdata

/-- `_session`, from the answer on. -/
def NtripClientConfig.session (c : NtripClientConfig) (reader : StreamReader) :
    ClientSession × SessionError :=
  match readHead reader with
  | .error e => ({}, e)
  | .ok (statusLine, headers, reader) =>
    match c.classify statusLine headers with
    | .error e => ({}, e)
    | .ok (chunked, version) => stream chunked {} { version := some version } reader

/-! ## The caster's stream is read back -/

/-- What the caster writes to one rover : the response, the frames, and the chunk that ends the
body of version 2. -/
def casterOutput (v2 : Bool) (raws : List (List UInt8)) : List UInt8 :=
  streamResponse v2 ++ raws.flatMap (clientWire v2) ++ clientWire v2 []

/-- `decode_chunked` returns these payloads, one after the other. -/
def Decodes : StreamReader → List (List UInt8) → Prop
  | _, [] => True
  | reader, payload :: payloads =>
    ∃ reader', decodeChunked reader = .ok (payload, reader') ∧ Decodes reader' payloads

/-- `_stream` is given these pieces, and then the end. -/
def Delivers (chunked : Bool) : StreamReader → List (List UInt8) → Prop
  | reader, [] => ∃ reader', nextData chunked reader = .ok ([], reader')
  | reader, p :: ps =>
    p ≠ [] ∧ ∃ reader', nextData chunked reader = .ok (p, reader') ∧ Delivers chunked reader' ps

section

variable {reader : StreamReader}

theorem readLine_eq (line rest : List UInt8) (h : reader.left = line ++ crlfBytes ++ rest)
    (hline : StreamReader.newline ∉ line) (hlen : line.length < StreamReader.limit) :
    ∃ reader', readLine reader = .ok (line ++ crlfBytes, reader') ∧ reader'.left = rest := by
  obtain ⟨reader', hread, hleft⟩ := StreamReader.readline_eq (r := reader) (line ++ [0x0D]) rest
    (by simpa [crlfBytes, StreamReader.newline] using h)
    (by simpa [StreamReader.newline] using hline) (by simp; omega)
  refine ⟨reader', ?_, hleft⟩
  rw [readLine, hread]
  simp [crlfBytes, StreamReader.newline]

theorem readExactly_eq {data rest : List UInt8} (h : reader.left = data ++ rest) :
    ∃ reader', readExactly data.length reader = .ok (data, reader') ∧ reader'.left = rest := by
  obtain ⟨reader', hread, hleft⟩ := StreamReader.readexactly_eq h
  exact ⟨reader', by rw [readExactly, hread], hleft⟩

theorem readChunk_eq {data rest : List UInt8} (h : reader.left = data ++ (crlfBytes ++ rest)) :
    ∃ reader', readChunk data.length reader = .ok (data, reader') ∧ reader'.left = rest := by
  obtain ⟨r₁, h₁, hleft₁⟩ := readExactly_eq h
  obtain ⟨r₂, h₂, hleft₂⟩ := readExactly_eq hleft₁
  have hlen : crlfBytes.length = 2 := rfl
  rw [hlen] at h₂
  refine ⟨r₂, ?_, hleft₂⟩
  simp only [readChunk, h₁, h₂, bind, Except.bind]
  exact if_neg (not_not.2 rfl)

theorem formatHex_plain {n : ℕ} {b : UInt8} (h : b ∈ formatHex n) : b ≠ 0x3B ∧ b ≠ 0x0A := by
  obtain ⟨d, hd, rfl⟩ := mem_formatHex h
  exact (upperHexDigit_plain hd).2.2.2.2.2

/-- The size line is read back. -/
theorem sizeLine_eq (n : ℕ) :
    parseInt (stripBytes ((formatHex n ++ crlfBytes).takeWhile (· ≠ 0x3B))) = some (n : ℤ) := by
  have hall : (formatHex n ++ crlfBytes).takeWhile (· ≠ 0x3B) = formatHex n ++ crlfBytes := by
    rw [List.takeWhile_eq_self_iff]
    simp only [List.mem_append]
    rintro b (hb | hb)
    · simpa using (formatHex_plain hb).1
    · obtain rfl | rfl : b = 0x0D ∨ b = 0x0A := by simpa [crlfBytes] using hb
      · rfl
      · rfl
  rw [hall, stripBytes_formatHex _ (List.all_eq_true.1 (by decide)), parseInt_formatHex]

theorem formatHex_length {n : ℕ} (h : n ≤ maxChunk) : (formatHex n).length ≤ 5 := by
  rw [formatHex]
  split
  · exact Nat.le_of_ble_eq_true rfl
  · rw [List.length_map, List.length_reverse, Nat.digits_length_le_iff (by decide)]
    exact Nat.lt_of_le_of_lt h (by decide)

/-- The size line of a chunk, and what `decode_chunked` goes on with. -/
theorem decodeChunked_size {n : ℕ} {rest : List UInt8} (hn : n ≤ maxChunk)
    (h : reader.left = formatHex n ++ crlfBytes ++ rest) :
    ∃ reader', reader'.left = rest ∧
      decodeChunked reader = if n = 0 then .ok ([], reader') else readChunk n reader' := by
  have hlen := formatHex_length hn
  have hlimit : StreamReader.limit = 65536 := rfl
  obtain ⟨reader', h₁, hleft⟩ :=
    readLine_eq _ _ h (fun hmem => (formatHex_plain hmem).2 rfl) (by omega)
  refine ⟨reader', hleft, ?_⟩
  simp only [decodeChunked, h₁, bind, Except.bind, sizeLine_eq]
  rw [if_neg (by simp [crlfBytes])]
  by_cases hzero : n = 0
  · rw [if_pos hzero, if_pos (by simp [hzero])]
  · rw [if_neg hzero, if_neg (by simpa using hzero), if_neg (by omega), Int.toNat_natCast]

/-- A chunk is decoded to its frame. -/
theorem decodeChunked_wire {raw rest : List UInt8} (hraw : raw ≠ []) (hlen : raw.length ≤ maxChunk)
    (h : reader.left = clientWire true raw ++ rest) :
    ∃ reader', decodeChunked reader = .ok (raw, reader') ∧ reader'.left = rest := by
  have hleft : reader.left = formatHex raw.length ++ crlfBytes ++ (raw ++ (crlfBytes ++ rest)) := by
    simpa [clientWire] using h
  obtain ⟨r₁, hleft₁, heq⟩ := decodeChunked_size hlen hleft
  obtain ⟨r₂, hchunk, hleft₂⟩ := readChunk_eq hleft₁
  refine ⟨r₂, ?_, hleft₂⟩
  rw [heq, if_neg (by simpa using hraw), hchunk]

/-- The terminating chunk is decoded to the empty payload. -/
theorem decodeChunked_end {rest : List UInt8} (h : reader.left = clientWire true [] ++ rest) :
    ∃ reader', decodeChunked reader = .ok ([], reader') := by
  have hleft : reader.left = formatHex 0 ++ crlfBytes ++ (crlfBytes ++ rest) := by
    simpa [clientWire] using h
  obtain ⟨r₁, -, heq⟩ := decodeChunked_size (Nat.zero_le _) hleft
  exact ⟨r₁, heq.trans (if_pos rfl)⟩

/-- A frame fits into a chunk. -/
theorem RtcmValid.length {raw : List UInt8} (h : RtcmValid raw) :
    raw ≠ [] ∧ raw.length ≤ maxChunk := by
  obtain ⟨hi, lo, payload, c₁, c₂, c₃, hhi, hlen, -, rfl⟩ := h
  have hlo := lo.toNat_lt
  have hmax : maxChunk = 65536 := rfl
  refine ⟨by simp, ?_⟩
  simp only [List.cons_append, List.length_cons, List.length_append, List.length_nil]
  omega

theorem decodes_body {raws : List (List UInt8)} (h : ∀ raw ∈ raws, RtcmValid raw)
    (hleft : reader.left = raws.flatMap (clientWire true) ++ clientWire true []) :
    Decodes reader (raws ++ [[]]) := by
  induction raws generalizing reader with
  | nil =>
    obtain ⟨reader', hend⟩ := decodeChunked_end (hleft.trans (List.append_nil _).symm)
    exact ⟨reader', hend, trivial⟩
  | cons raw raws ih =>
    obtain ⟨hraw, hraws⟩ := List.forall_mem_cons.1 h
    obtain ⟨hne, hlen⟩ := hraw.length
    rw [List.flatMap_cons, List.append_assoc] at hleft
    obtain ⟨reader', hchunk, hrest⟩ := decodeChunked_wire hne hlen hleft
    exact ⟨reader', hchunk, ih hraws hrest⟩

/-- What decodes to non-empty payloads and an empty one is delivered as these pieces. -/
theorem Decodes.delivers {ps : List (List UInt8)} (hps : ∀ p ∈ ps, p ≠ [])
    (h : Decodes reader (ps ++ [[]])) : Delivers true reader ps := by
  induction ps generalizing reader with
  | nil =>
    obtain ⟨reader', hend, -⟩ := h
    exact ⟨reader', hend⟩
  | cons p ps ih =>
    obtain ⟨hp, hps⟩ := List.forall_mem_cons.1 hps
    obtain ⟨reader', hnext, htail⟩ := h
    exact ⟨hp, reader', hnext, ih hps htail⟩

/-- `read` delivers the stream in pieces. -/
theorem delivers_read (reader : StreamReader) :
    ∃ ps, Delivers false reader ps ∧ ps.flatten = reader.left ∧ ∀ p ∈ ps, p.length ≤ readSize := by
  induction hn : reader.left.length using Nat.strong_induction_on generalizing reader with
  | _ n ih =>
    obtain ⟨happ, hlen, hend⟩ := StreamReader.read_spec (n := readSize) (by decide) reader
    have hnext : nextData false reader = .ok (reader.read readSize) := rfl
    by_cases hdata : (reader.read readSize).1 = []
    · refine ⟨[], ⟨(reader.read readSize).2, ?_⟩, ?_, by simp⟩
      · rw [hnext, ← hdata]
      · rw [hend hdata, List.flatten_nil]
    · obtain ⟨ps, hps, hflat, hsize⟩ :=
        ih _ (hn ▸ nextData_lt hnext hdata) (reader.read readSize).2 rfl
      refine ⟨(reader.read readSize).1 :: ps, ⟨hdata, _, hnext, hps⟩, ?_, ?_⟩
      · rw [List.flatten_cons, hflat, happ]
      · exact List.forall_mem_cons.2 ⟨hlen, hsize⟩

end

/-! ## What the driver is given -/

theorem rtcmRaws_append (fs fs' : List Frame) :
    rtcmRaws (fs ++ fs') = rtcmRaws fs ++ rtcmRaws fs' := by
  simp [rtcmRaws]

/-- The frames the re-framer makes of the pieces go to the driver, and the end is reported
behind them. -/
theorem stream_of_delivers {chunked : Bool} {ps : List (List UInt8)} {reader : StreamReader}
    (h : Delivers chunked reader ps) (framer : Framer) (s : ClientSession) :
    (stream chunked framer s reader).1.injected = s.injected ++ rtcmRaws (framer.feedAll ps).1 ∧
      (stream chunked framer s reader).2 = .connection "caster closed the connection" := by
  induction ps generalizing reader framer s with
  | nil =>
    obtain ⟨reader', hend⟩ := h
    rw [stream]
    split
    · next e he => rw [hend] at he; cases he
    · next data r' hok =>
      obtain ⟨rfl, rfl⟩ := Prod.mk.inj (Except.ok.inj (hend.symm.trans hok))
      simp [Framer.feedAll, rtcmRaws]
  | cons p ps ih =>
    obtain ⟨hp, reader', hnext, htail⟩ := h
    rw [stream]
    split
    · next e he => rw [hnext] at he; cases he
    · next data r' hok =>
      obtain ⟨rfl, rfl⟩ := Prod.mk.inj (Except.ok.inj (hnext.symm.trans hok))
      rw [dif_neg hp]
      obtain ⟨hinj, hend⟩ := ih htail (framer.feed p).2 (s.receive framer p)
      refine ⟨?_, hend⟩
      rw [hinj, Framer.feedAll, rtcmRaws_append, ← List.append_assoc]
      rfl

/-! ## The head is read back -/

/-- The header a line of bytes holds, as `_read_head` reads it. -/
def headerOf (line : List UInt8) : Option (Str × Str) :=
  parseHeader (decodeLatin1 (line ++ crlfBytes))

theorem readHeaders_eq {lines : List (List UInt8)} {rest : List UInt8}
    (hlines : ∀ line ∈ lines, line ≠ [] ∧ StreamReader.newline ∉ line ∧ line.length < 64)
    (headers : List (Str × Str)) (hmax : headers.length + lines.length ≤ maxHeaders)
    {reader : StreamReader}
    (h : reader.left = lines.flatMap (· ++ crlfBytes) ++ crlfBytes ++ rest) :
    ∃ reader', readHeaders headers reader = .ok (headers ++ lines.filterMap headerOf, reader') ∧
      reader'.left = rest := by
  have hlimit : StreamReader.limit = 65536 := rfl
  induction lines generalizing headers reader with
  | nil =>
    obtain ⟨reader', hread, hleft⟩ := readLine_eq [] rest (by simpa using h) (by simp)
      (by simp [hlimit])
    refine ⟨reader', ?_, hleft⟩
    rw [readHeaders]
    split
    · next e he => rw [hread] at he; cases he
    · next line r' hok =>
      obtain ⟨rfl, rfl⟩ := Prod.mk.inj (Except.ok.inj (hread.symm.trans hok))
      simp [crlfBytes]
  | cons line lines ih =>
    obtain ⟨⟨hne, hnl, hshort⟩, hlines⟩ := List.forall_mem_cons.1 hlines
    obtain ⟨reader₁, hread, hleft₁⟩ := readLine_eq line
      (lines.flatMap (· ++ crlfBytes) ++ crlfBytes ++ rest) (by simpa using h) hnl (by omega)
    have hcount : (headers ++ (headerOf line).toList).length + lines.length ≤ maxHeaders := by
      have : (headerOf line).toList.length ≤ 1 := by cases headerOf line <;> simp
      simp only [List.length_append, List.length_cons] at hmax ⊢
      omega
    obtain ⟨reader', hrest, hleft⟩ := ih hlines _ hcount hleft₁
    refine ⟨reader', ?_, hleft⟩
    rw [readHeaders]
    split
    · next e he => rw [hread] at he; cases he
    · next l r' hok =>
      obtain ⟨rfl, rfl⟩ := Prod.mk.inj (Except.ok.inj (hread.symm.trans hok))
      rw [dif_neg (by simp [crlfBytes]), if_neg ?_]
      · dsimp only
        rw [if_neg ?_]
        · change readHeaders (headers ++ (headerOf line).toList) reader₁ = _
          rw [hrest]
          cases heq : headerOf line <;> simp [heq]
        · have := List.dedup_sublist ((headers ++ (headerOf line).toList).map Prod.fst)
          have := this.length_le
          rw [List.length_map] at this
          change ¬((headers ++ (headerOf line).toList).map Prod.fst).dedup.length > maxHeaders
          omega
      · have hpos := List.length_pos_of_ne_nil hne
        have htwo : crlfBytes.length = 2 := rfl
        rintro (heq | heq)
        · have hlen := congrArg List.length heq
          rw [List.length_append] at hlen
          omega
        · have hlen := congrArg List.length heq
          rw [List.length_append, List.length_singleton] at hlen
          omega

/-- The version 2 response, line by line. -/
theorem streamResponse_true :
    streamResponse true =
      (streamLines.map encode).flatMap (· ++ crlfBytes) ++ crlfBytes := by
  decide +kernel

/-- The headers of the version 2 response, as the client reads them. -/
def streamHeaders : List (Str × Str) := (streamLines.tail.map encode).filterMap headerOf

theorem readHead_true {reader : StreamReader} {rest : List UInt8}
    (h : reader.left = streamResponse true ++ rest) :
    ∃ reader', readHead reader = .ok ("HTTP/1.1 200 OK".toList, streamHeaders, reader') ∧
      reader'.left = rest := by
  have hlimit : StreamReader.limit = 65536 := rfl
  rw [streamResponse_true] at h
  obtain ⟨r₁, hfirst, hleft₁⟩ := readLine_eq (encode "HTTP/1.1 200 OK".toList)
    ((streamLines.tail.map encode).flatMap (· ++ crlfBytes) ++ crlfBytes ++ rest)
    (by rw [h, streamLines]; simp) (by decide) (by rw [hlimit]; decide)
  obtain ⟨r₂, hheaders, hleft₂⟩ := readHeaders_eq (by decide +kernel) [] (by decide) hleft₁
  refine ⟨r₂, ?_, hleft₂⟩
  have hstatus : strip (decodeLatin1 (encode "HTTP/1.1 200 OK".toList ++ crlfBytes)) =
      "HTTP/1.1 200 OK".toList := by decide
  simp only [readHead, hfirst, bind, Except.bind, hstatus]
  rw [if_neg (by decide), if_neg (by decide), hheaders]
  rfl

theorem classify_true (c : NtripClientConfig) :
    c.classify "HTTP/1.1 200 OK".toList streamHeaders = .ok (true, 2) := by
  have hcode : statusCode "HTTP/1.1 200 OK".toList = "200".toList := by decide
  have hstream : occursIn "sourcetable".toList
      (lower (headerGet streamHeaders "content-type".toList)) = false := by decide +kernel
  have hchunked : occursIn "chunked".toList
      (lower (headerGet streamHeaders "transfer-encoding".toList)) = true := by decide +kernel
  have hversion : "ntrip-version".toList ∈ streamHeaders.map Prod.fst := by decide +kernel
  simp only [NtripClientConfig.classify, hcode, hstream, hchunked]
  rw [if_neg (by decide), if_neg (by decide), if_neg (by decide), if_pos (by decide),
    if_pos hversion]

theorem readHead_false {reader : StreamReader} {rest : List UInt8}
    (h : reader.left = streamResponse false ++ rest) :
    ∃ reader', readHead reader = .ok ("ICY 200 OK".toList, [], reader') ∧
      reader'.left = crlfBytes ++ rest := by
  have hlimit : StreamReader.limit = 65536 := rfl
  have hhead : streamResponse false = encode "ICY 200 OK".toList ++ crlfBytes ++ crlfBytes := by
    decide
  obtain ⟨r₁, hfirst, hleft₁⟩ := readLine_eq (encode "ICY 200 OK".toList)
    (crlfBytes ++ rest) (by rw [h, hhead]; simp) (by decide) (by rw [hlimit]; decide)
  refine ⟨r₁, ?_, hleft₁⟩
  have hstatus : strip (decodeLatin1 (encode "ICY 200 OK".toList ++ crlfBytes)) =
      "ICY 200 OK".toList := by decide
  simp only [readHead, hfirst, bind, Except.bind, hstatus]
  rw [if_neg (by decide), if_pos (by decide)]

theorem classify_false (c : NtripClientConfig) :
    c.classify "ICY 200 OK".toList [] = .ok (false, 1) := by
  rw [NtripClientConfig.classify]
  exact if_pos (by decide)

/-! ## End to end -/

/-- RTCM3 frames, in pieces that a read or a chunk may be, behind the blank line of version 1. -/
theorem rtcmRaws_feedAll {raws ps : List (List UInt8)} {g : List UInt8}
    (h : ∀ raw ∈ raws, RtcmValid raw) (hsize : ∀ p ∈ ps, p.length ≤ maxChunk)
    (hg : g = [] ∨ g = crlfBytes) (hps : ps.flatten = g ++ raws.flatten) :
    rtcmRaws (({} : Framer).feedAll ps).1 = raws := by
  have hmax : maxChunk = 65536 := rfl
  have hub : ubxMaxPayload = 8192 := rfl
  have hfits : (Framer.fresh (1 <<< 20)).NoOverflow ps := Framer.fresh_noOverflow fun p hp => by
    have := hsize p hp
    omega
  have hraw : (raws.map fun raw => (⟨.rtcm3, raw⟩ : Frame)).map Frame.raw = raws := by
    simp [Function.comp_def]
  have hfed := Framer.feedAll_frames (raws.map fun raw => ⟨.rtcm3, raw⟩) hfits (g := g)
    (by rcases hg with rfl | rfl <;> simp [isSync, crlfBytes, ubxSync1, rtcmPreamble, nmeaStart])
    (fun f hf => by
      obtain ⟨raw, hmem, rfl⟩ := List.mem_map.1 hf
      exact ⟨h raw hmem, by simp⟩)
    (by rw [hraw, hps])
  change rtcmRaws ((Framer.fresh (1 <<< 20)).feedAll ps).1 = raws
  rw [hfed, rtcmRaws, List.filter_eq_self.2 (by simp), hraw]

/-- The session that reads the caster's stream gives the driver exactly the frames that were
written, in order, before it reports the end of the stream, however the bytes arrive. In
version 2 `decode_chunked` returns each frame and then the empty payload. -/
theorem session_injects (c : NtripClientConfig) (v2 : Bool) {raws : List (List UInt8)}
    (h : ∀ raw ∈ raws, RtcmValid raw) {reader : StreamReader}
    (hreader : reader.left = casterOutput v2 raws) :
    (c.session reader).1.injected = raws ∧
      (c.session reader).2 = .connection "caster closed the connection" ∧
      (v2 = true → ∃ statusLine headers body,
        readHead reader = .ok (statusLine, headers, body) ∧ Decodes body (raws ++ [[]])) := by
  rw [casterOutput, List.append_assoc] at hreader
  cases v2 with
  | false =>
    obtain ⟨body, hhead, hbody⟩ := readHead_false hreader
    obtain ⟨ps, hps, hflat, hsize⟩ := delivers_read body
    have hraws : ps.flatten = crlfBytes ++ raws.flatten := by
      have hbare : raws.flatMap (clientWire false) = raws.flatten :=
        List.flatMap_id
      rw [hflat, hbody, hbare]
      simp [clientWire]
    obtain ⟨hinj, hend⟩ := stream_of_delivers hps {} { version := some 1 }
    have hsession : c.session reader = stream false {} { version := some 1 } body := by
      simp only [NtripClientConfig.session, hhead, classify_false]
    rw [hsession, hinj, hend, rtcmRaws_feedAll h (fun p hp => (hsize p hp).trans (by decide))
      (.inr rfl) hraws]
    exact ⟨rfl, rfl, fun hv2 => absurd hv2 Bool.false_ne_true⟩
  | true =>
    obtain ⟨body, hhead, hbody⟩ := readHead_true hreader
    have hdec := decodes_body h hbody
    have hps := hdec.delivers fun raw hraw => (h raw hraw).length.1
    obtain ⟨hinj, hend⟩ := stream_of_delivers hps {} { version := some 2 }
    have hsession : c.session reader = stream true {} { version := some 2 } body := by
      simp only [NtripClientConfig.session, hhead, classify_true]
    rw [hsession, hinj, hend, rtcmRaws_feedAll h (fun raw hraw => (h raw hraw).length.2)
      (.inl rfl) rfl]
    exact ⟨rfl, rfl, fun _ => ⟨_, _, body, hhead, hdec⟩⟩

/-- Two frames. -/
def twoFrames : List (List UInt8) :=
  [[0xD3, 0x00, 0x02, 0x3E, 0xD0, 0xA4, 0xE0, 0x00],
    [0xD3, 0x00, 0x03, 0x43, 0x50, 0x0A, 0xA6, 0x10, 0x8A]]

theorem rtcmValid_twoFrames : ∀ raw ∈ twoFrames, RtcmValid raw := by
  refine List.forall_mem_cons.2 ⟨?_, List.forall_mem_singleton.2 ?_⟩
  · exact ⟨0, 2, [0x3E, 0xD0], 0xA4, 0xE0, 0x00, by decide, rfl, by decide +kernel, rfl⟩
  · exact ⟨0, 3, [0x43, 0x50, 0x0A], 0xA6, 0x10, 0x8A, by decide, rfl, by decide +kernel, rfl⟩

/-- The output of the caster that comes six bytes at a time, three of them before the first call. -/
def sixBytes (v2 : Bool) : StreamReader := ⟨[], (casterOutput v2 twoFrames).toChunks 6, [3]⟩

/-- The size of the first chunk, the chunks and the frames are cut. -/
theorem session_injects_sixBytes :
    (NtripClientConfig.session ⟨[], 2101, [], none, none⟩ (sixBytes false)).1.injected = twoFrames ∧
    (NtripClientConfig.session ⟨[], 2101, [], none, none⟩ (sixBytes true)).1.injected = twoFrames ∧
    ∃ statusLine headers body, readHead (sixBytes true) = .ok (statusLine, headers, body) ∧
      Decodes body (twoFrames ++ [[]]) := by
  have hleft : ∀ v2, (sixBytes v2).left = casterOutput v2 twoFrames := by decide +kernel
  obtain ⟨hplain, -, -⟩ :=
    session_injects ⟨[], 2101, [], none, none⟩ false rtcmValid_twoFrames (hleft false)
  obtain ⟨hchunked, -, hdecodes⟩ :=
    session_injects ⟨[], 2101, [], none, none⟩ true rtcmValid_twoFrames (hleft true)
  exact ⟨hplain, hchunked, hdecodes rfl⟩

end Mtrtk
