import Mtrtk.Base64

/-!
# The NTRIP request

`rover/ntrip_client.py` writes the request head (`NtripClient._request`), and
`base/ntrip_caster.py` reads it (`parse_request`, `mount_from_target`, `_authorized`). The head is
encoded as UTF-8 and read as latin-1, the credentials are UTF-8 within base64 within it.

`request_agrees` : the caster finds the verb, the version and the mountpoint the client was
configured with, and lets it in if and only if the credentials are the caster's own.
-/

namespace Mtrtk

/-! ## The client -/

/-- `NtripClientConfig`. -/
structure NtripClientConfig where
  host : Str
  port : ℤ
  mountpoint : Str
  username : Option Str
  password : Option Str
  deriving DecidableEq, Repr

/-- `__version__`. -/
def version : Str := "0.1.0".toList

def crlf : Str := ['\r', '\n']

namespace NtripClientConfig

/-- The host as the head names it. -/
def hostName (c : NtripClientConfig) : Str :=
  if ':' ∈ c.host then '[' :: c.host ++ [']'] else c.host

/-- The token of the credentials. -/
def token (c : NtripClientConfig) (username : Str) : Str :=
  b64encode (encode (username ++ ':' :: c.password.getD []))

/-- The lines of the head. -/
def requestLines (c : NtripClientConfig) (v2 : Bool) : List Str :=
  ["GET ".toList ++ ('/' :: c.mountpoint ++ " HTTP/1.".toList ++ if v2 then ['1'] else ['0']),
    "Host: ".toList ++ (c.hostName ++ ':' :: (toString c.port).toList),
    "User-Agent: NTRIP mtrtk/".toList ++ version] ++
  (if v2 then ["Ntrip-Version: Ntrip/2.0".toList, "Connection: close".toList] else []) ++
  (c.username.map fun username => "Authorization: Basic ".toList ++ c.token username).toList

/-- `_request`. -/
def request (c : NtripClientConfig) (v2 : Bool) : List UInt8 :=
  encode (crlf.intercalate (c.requestLines v2) ++ (crlf ++ crlf))

end NtripClientConfig

/-! ## The caster -/

/-- `CasterConfig`, as far as a request is checked against it. -/
structure CasterConfig where
  mountpoint : Str
  username : Str
  password : Str
  deriving DecidableEq, Repr

/-- `anonymous`. -/
def CasterConfig.anonymous (config : CasterConfig) : Bool := config.password = []

/-- `Request`. `headers` are the items the dictionary was given, in order. -/
structure Request where
  method : Str
  path : Str
  v2 : Bool
  headers : List (Str × Str)
  deriving DecidableEq, Repr

/-- `headers.get(key, "")`. -/
def headerGet (headers : List (Str × Str)) (key : Str) : Str :=
  ((headers.filter (·.1 = key)).getLast?.map Prod.snd).getD []

/-- A header line, if it is one. -/
def parseHeader (line : Str) : Option (Str × Str) :=
  (cut ':' line).map fun kv => (lower (strip kv.1), strip kv.2)

/-- `parse_request`. -/
def parseRequest (head : List UInt8) : Request :=
  let lines := split crlf (decodeLatin1 head)
  let parts := split [' '] (lines.headD [])
  let headers := lines.tail.filterMap parseHeader
  { method := upper (parts.headD [])
    path := parts.getD 1 ['/']
    v2 := "ntrip/2".toList.isPrefixOf (lower (headerGet headers "ntrip-version".toList))
    headers }

/-- What the scheme of a target may be written with. -/
def isSchemeChar (c : Char) : Bool := c.isAlphanum || c = '+' || c = '.' || c = '-'

/-- `_ABSOLUTE_FORM_RE.sub("", target, count=1)`. -/
def dropAuthority (target : Str) : Str :=
  if (target.head?.any Char.isAlpha) && "://".toList.isPrefixOf (target.dropWhile isSchemeChar) then
    ((target.dropWhile isSchemeChar).drop 3).dropWhile fun c => c ≠ '/' && c ≠ '?'
  else target

/-- `mount_from_target`. -/
def mountFromTarget (target : Str) : Str :=
  ((dropAuthority target).dropWhile (· = '/')).takeWhile (· ≠ '?')

/-- `_authorized`. -/
def CasterConfig.authorized (config : CasterConfig) (req : Request) : Bool × Option Str :=
  if config.anonymous then (true, none)
  else
    let header := headerGet req.headers "authorization".toList
    if "basic ".toList.isPrefixOf (lower header) then
      match (b64decode (strip (header.drop 6))).bind decodeUtf8 with
      | none => (false, none)
      | some credentials =>
        let (user, password) := (cut ':' credentials).getD (credentials, [])
        (encode user = encode config.username && encode password = encode config.password,
          some user)
    else (false, none)

/-! ## What the caster reads -/

/-- A text after the wire : encoded by the client, read by the caster. -/
def wire (s : Str) : Str := decodeLatin1 (encode s)

@[simp] theorem wire_append (s t : Str) : wire (s ++ t) = wire s ++ wire t := by simp [wire]

theorem wire_of_ascii {s : Str} (h : ∀ c ∈ s, c.toNat < 128) : wire s = s :=
  decodeLatin1_encode_of_ascii h

/-- That a text is ASCII is computed. -/
theorem ascii_of_all {s : Str} (h : s.all (·.toNat < 128) = true) : ∀ c ∈ s, c.toNat < 128 := by
  simpa using h

theorem notMem_wire {c : Char} {s : Str} (hc : c.toNat < 128) (h : c ∉ s) : c ∉ wire s :=
  fun hmem => h (mem_of_mem_decodeLatin1_encode hc hmem)

theorem wire_flatMap (lines : List Str) :
    wire (lines.flatMap (· ++ crlf)) = (lines.map wire).flatMap (· ++ crlf) := by
  induction lines with
  | nil => rfl
  | cons l lines ih =>
    rw [List.flatMap_cons, wire_append, wire_append, ih, List.map_cons, List.flatMap_cons]
    rfl

/-- The head is split into the lines it was made of. -/
theorem split_head {lines : List Str} (hne : lines ≠ []) (h : ∀ l ∈ lines, '\r' ∉ l) :
    split crlf (decodeLatin1 (encode (crlf.intercalate lines ++ (crlf ++ crlf)))) =
      lines.map wire ++ [[], []] := by
  have hcr : ∀ l ∈ lines.map wire, '\r' ∉ l := by
    simp only [List.forall_mem_map]
    exact fun l hl => notMem_wire (by decide) (h l hl)
  rw [← List.append_assoc, intercalate_append crlf hne]
  change split crlf (wire _) = _
  rw [wire_append, wire_flatMap]
  exact split_flatMap hcr

theorem parseHeader_append {key : Str} (h : ':' ∉ key) (value : Str) :
    parseHeader (key ++ ':' :: value) = some (lower (strip key), strip value) := by
  rw [parseHeader, cut_append h, Option.map_some]

theorem parseHeader_nil : parseHeader [] = none := rfl

/-- Printable, and not a blank. -/
def Printable (c : Char) : Prop := 0x21 ≤ c.toNat ∧ c.toNat < 0x7F

theorem Printable.not_isWhite {c : Char} (h : Printable c) : isWhite c = false := by
  obtain ⟨hle, hlt⟩ := h
  simp only [isWhite, Bool.or_eq_false_iff, Bool.and_eq_false_iff, decide_eq_false_iff_not]
  omega

/-- What `from_url` and the settings promise of a mountpoint. -/
structure Mountpoint (s : Str) : Prop where
  ne_nil : s ≠ []
  printable : ∀ c ∈ s, Printable c
  noQuery : '?' ∉ s
  noSlash : s.head? ≠ some '/'

namespace NtripClientConfig

variable {c : NtripClientConfig} {v2 : Bool}

theorem notMem_natRepr (n : ℕ) : '\r' ∉ n.repr.toList := by
  rw [Nat.repr, String.toList_ofList]
  intro h
  exact absurd (Nat.isDigit_of_mem_toDigits (by decide) (by decide) h) (by decide)

theorem notMem_port (c : NtripClientConfig) : '\r' ∉ (toString c.port).toList := by
  rw [Int.toString_eq_repr, Int.repr_eq_if]
  split
  · exact notMem_natRepr _
  · rw [String.toList_append, List.mem_append, not_or]
    exact ⟨by decide, notMem_natRepr _⟩

theorem notMem_hostName (h : '\r' ∉ c.host) : '\r' ∉ c.hostName := by
  rw [hostName]
  split
  · simp [h]
  · exact h

theorem notMem_token (c : NtripClientConfig) (username : Str) : '\r' ∉ c.token username :=
  fun h => absurd (mem_b64encode h).1 (by decide)

theorem notMem_requestLines (hhost : '\r' ∉ c.host) (hmount : Mountpoint c.mountpoint) (v2 : Bool) :
    ∀ l ∈ c.requestLines v2, '\r' ∉ l := by
  have hcr : '\r' ∉ c.mountpoint := fun h => absurd (hmount.printable _ h).1 (by decide)
  have hversion : ∀ b : Bool, '\r' ∉ (if b then ['1'] else ['0']) := by decide
  have hprefix : '\r' ∉ "GET ".toList ∧ '\r' ∉ " HTTP/1.".toList ∧ '\r' ∉ "Host: ".toList ∧
      '\r' ∉ "User-Agent: NTRIP mtrtk/".toList ++ version ∧
      '\r' ∉ "Authorization: Basic ".toList := by decide
  obtain ⟨hget, hhttp, hhostKey, hagent, hauth⟩ := hprefix
  have hv2 : ∀ b : Bool, ∀ l ∈ (if b then ["Ntrip-Version: Ntrip/2.0".toList,
      "Connection: close".toList] else []), '\r' ∉ l := by decide
  intro l hl
  rw [requestLines, List.mem_append, List.mem_append] at hl
  rcases hl with (hl | hl) | hl
  · simp only [List.mem_cons, List.not_mem_nil, or_false] at hl
    obtain rfl | rfl | rfl := hl
    · simp only [List.mem_append, List.mem_cons, not_or]
      exact ⟨hget, ⟨⟨by decide, hcr⟩, hhttp⟩, hversion v2⟩
    · simp only [List.mem_append, List.mem_cons, not_or]
      exact ⟨hhostKey, notMem_hostName hhost, by decide, c.notMem_port⟩
    · exact hagent
  · exact hv2 v2 l hl
  · obtain ⟨username, -, rfl⟩ := Option.map_eq_some_iff.1 (Option.mem_toList.1 hl)
    rw [List.mem_append, not_or]
    exact ⟨hauth, c.notMem_token username⟩

/-- The header the credentials are in. -/
def authHeader (c : NtripClientConfig) : List (Str × Str) :=
  (c.username.map fun username =>
    ("authorization".toList, "Basic ".toList ++ c.token username)).toList

theorem token_ne_nil (c : NtripClientConfig) (username : Str) : c.token username ≠ [] := by
  have hne : encode (username ++ ':' :: c.password.getD []) ≠ [] := by
    rw [Ne, encode, List.flatMap_eq_nil_iff]
    exact fun h => String.utf8EncodeChar_ne_nil (h ':' (by simp))
  rw [token]
  rcases h : encode (username ++ ':' :: c.password.getD []) with _ | ⟨b, _ | ⟨b', _ | ⟨b'', bytes⟩⟩⟩
  · exact absurd h hne
  all_goals exact List.cons_ne_nil _ _

/-- No blank is taken off the credentials. -/
theorem strip_token (c : NtripClientConfig) (username : Str) :
    strip (c.token username) = c.token username ∧
      strip (" Basic ".toList ++ c.token username) = "Basic ".toList ++ c.token username := by
  have hspace : ∀ d ∈ c.token username, isWhite d = false := fun d hd => by
    obtain ⟨hle, hlt⟩ := mem_b64encode hd
    exact Printable.not_isWhite ⟨hle, by omega⟩
  have hne := c.token_ne_nil username
  have hlast : ∀ s : Str, (s ++ c.token username).rdropWhile isWhite = s ++ c.token username := by
    intro s
    rw [List.rdropWhile_eq_self_iff]
    intro _
    rw [List.getLast_append_of_ne_nil _ hne, hspace _ (List.getLast_mem hne)]
    exact Bool.false_ne_true
  refine ⟨?_, hlast "Basic ".toList⟩
  rw [strip, List.dropWhile_eq_self_iff.2 fun hlen => by
    rw [hspace _ (List.getElem_mem hlen)]; exact Bool.false_ne_true]
  exact hlast []

/-- The headers the caster finds. The host's text is of no consequence. -/
theorem parseHeader_requestLines (c : NtripClientConfig) (v2 : Bool) :
    ∃ host, (((c.requestLines v2).map wire ++ [[], []]).tail.filterMap parseHeader) =
      [("host".toList, host), ("user-agent".toList, "NTRIP mtrtk/0.1.0".toList)] ++
      (if v2 then [("ntrip-version".toList, "Ntrip/2.0".toList),
        ("connection".toList, "close".toList)] else []) ++ c.authHeader := by
  have hascii : ∀ username, wire ("Authorization: Basic ".toList ++ c.token username) =
      "Authorization".toList ++ ':' :: (" Basic ".toList ++ c.token username) := by
    intro username
    rw [wire_of_ascii]
    · rfl
    · intro d hd
      obtain hd | hd := List.mem_append.1 hd
      · exact ascii_of_all (s := "Authorization: Basic ".toList) (by decide) d hd
      · have := mem_b64encode hd
        omega
  have hauth : ∀ username, parseHeader (wire ("Authorization: Basic ".toList ++ c.token username)) =
      some ("authorization".toList, "Basic ".toList ++ c.token username) := by
    intro username
    rw [hascii, parseHeader_append (by decide), (c.strip_token username).2]
    rfl
  have hhost : parseHeader (wire ("Host: ".toList ++
        (c.hostName ++ ':' :: (toString c.port).toList))) =
      some ("host".toList,
        strip (' ' :: wire (c.hostName ++ ':' :: (toString c.port).toList))) := by
    rw [wire_append, wire_of_ascii (s := "Host: ".toList) (ascii_of_all (by decide))]
    exact parseHeader_append (by decide : ':' ∉ "Host".toList) _
  have hagent : parseHeader (wire ("User-Agent: NTRIP mtrtk/".toList ++ version)) =
      some ("user-agent".toList, "NTRIP mtrtk/0.1.0".toList) := by decide
  have hversion : parseHeader (wire "Ntrip-Version: Ntrip/2.0".toList) =
      some ("ntrip-version".toList, "Ntrip/2.0".toList) := by decide
  have hclose : parseHeader (wire "Connection: close".toList) =
      some ("connection".toList, "close".toList) := by decide
  refine ⟨strip (' ' :: wire (c.hostName ++ ':' :: (toString c.port).toList)), ?_⟩
  rcases v2 <;> rcases hu : c.username with _ | username <;>
    simp only [requestLines, authHeader, hu, List.map_cons, List.map_nil,
      List.cons_append, List.nil_append, List.tail_cons, List.filterMap_cons, List.filterMap_nil,
      hhost, hagent, hversion, hclose, hauth, parseHeader_nil, Option.map_none, Option.map_some,
      Option.toList_none, Option.toList_some, List.append_nil, Bool.false_eq_true, if_true,
      if_false]

/-- The first line is the verb, the target and the protocol. -/
theorem split_requestLine (hmount : Mountpoint c.mountpoint) (v2 : Bool) :
    split [' '] (((c.requestLines v2).map wire ++ [[], []]).headD []) =
      ["GET".toList, '/' :: c.mountpoint, "HTTP/1.".toList ++ if v2 then ['1'] else ['0']] := by
  have hblank : ' ' ∉ '/' :: c.mountpoint := fun h => by
    obtain h | h := List.mem_cons.1 h
    · exact absurd h (by decide)
    · exact absurd (hmount.printable _ h).1 (by decide)
  have hprotocol : ∀ b : Bool, ' ' ∉ "HTTP/1.".toList ++ if b then ['1'] else ['0'] := by decide
  have hascii : ∀ d ∈ "GET ".toList ++ ('/' :: c.mountpoint ++ " HTTP/1.".toList ++
      if v2 then ['1'] else ['0']), d.toNat < 128 := by
    have hclosed : ∀ b : Bool, ∀ d ∈ "GET /".toList ++ " HTTP/1.".toList ++
      (if b then ['1'] else ['0']), d.toNat < 128 := fun b => ascii_of_all (by revert b; decide)
    intro d hd
    by_cases hin : d ∈ c.mountpoint
    · have := (hmount.printable d hin).2
      omega
    · refine hclosed v2 d ?_
      simpa [hin] using hd
  have hline : ((c.requestLines v2).map wire ++ [[], []]).headD [] =
      "GET".toList ++ ([' '] ++ ('/' :: c.mountpoint ++ ([' '] ++ ("HTTP/1.".toList ++
        if v2 then ['1'] else ['0'])))) := by
    rw [requestLines]
    change wire _ = _
    rw [wire_of_ascii hascii]
    simp
  rw [hline, split_append (by decide), split_append hblank, split_of_notMem (hprotocol v2)]

end NtripClientConfig

theorem mountFromTarget_slash {mount : Str} (h : Mountpoint mount) :
    mountFromTarget ('/' :: mount) = mount := by
  have hform : dropAuthority ('/' :: mount) = '/' :: mount := rfl
  have hslash : mount.dropWhile (· = '/') = mount := by
    rcases mount with _ | ⟨d, mount⟩
    · rfl
    · have hd : d ≠ '/' := fun hd => h.noSlash (by rw [hd, List.head?_cons])
      rw [List.dropWhile_cons_of_neg (by simpa using hd)]
  rw [mountFromTarget, hform, List.dropWhile_cons_of_pos (by decide), hslash,
    List.takeWhile_eq_self_iff]
  intro d hd
  simpa using fun hq : d = '?' => h.noQuery (hq ▸ hd)

/-- What the caster makes of the client's head. -/
theorem parseRequest_request {c : NtripClientConfig} (hhost : '\r' ∉ c.host)
    (hmount : Mountpoint c.mountpoint) (v2 : Bool) :
    (parseRequest (c.request v2)).method = "GET".toList ∧
      (parseRequest (c.request v2)).path = '/' :: c.mountpoint ∧
      (parseRequest (c.request v2)).v2 = v2 ∧
      headerGet (parseRequest (c.request v2)).headers "authorization".toList =
        (c.username.map fun username => "Basic ".toList ++ c.token username).getD [] := by
  have hne : c.requestLines v2 ≠ [] := List.append_ne_nil_of_left_ne_nil
    (List.append_ne_nil_of_left_ne_nil (List.cons_ne_nil _ _) _) _
  obtain ⟨host, hheaders⟩ := c.parseHeader_requestLines v2
  simp only [parseRequest, NtripClientConfig.request,
    split_head hne (NtripClientConfig.notMem_requestLines hhost hmount v2),
    NtripClientConfig.split_requestLine hmount, hheaders]
  refine ⟨rfl, rfl, ?_, ?_⟩
  · rcases v2 <;> rcases hu : c.username with _ | username <;>
      · rw [NtripClientConfig.authHeader, hu]
        rfl
  · rcases v2 <;> rcases hu : c.username with _ | username <;>
      · rw [NtripClientConfig.authHeader, hu]
        rfl

/-- The credentials the client sends are the ones compared. -/
theorem authorized_basic (config : CasterConfig) (c : NtripClientConfig) {username : Str}
    (huser : ':' ∉ username) (hpassword : config.password ≠ []) {req : Request}
    (hheader : headerGet req.headers "authorization".toList =
      "Basic ".toList ++ c.token username) :
    (config.authorized req).1 = true ↔
      username = config.username ∧ c.password.getD [] = config.password := by
  have hbasic :
      "basic ".toList.isPrefixOf (lower ("Basic ".toList ++ c.token username)) = true := by
    rw [lower, List.map_append]
    exact List.isPrefixOf_iff_prefix.2 (List.prefix_append _ _)
  have hdrop : ("Basic ".toList ++ c.token username).drop 6 = c.token username := rfl
  have hdecode : (b64decode (c.token username)).bind decodeUtf8 =
      some (username ++ ':' :: c.password.getD []) := by
    rw [NtripClientConfig.token, b64decode_b64encode, Option.bind_some, decodeUtf8_encode]
  have hanonymous : config.anonymous = false := by simp [CasterConfig.anonymous, hpassword]
  simp only [CasterConfig.authorized, hanonymous, hheader, hbasic, hdrop, if_true,
    (c.strip_token username).1, hdecode, cut_append huser, Option.getD_some, Bool.false_eq_true,
    if_false, Bool.and_eq_true, decide_eq_true_eq, encode_injective.eq_iff]

/-- Without credentials nobody is let in. -/
theorem authorized_nil (config : CasterConfig) (hpassword : config.password ≠ []) {req : Request}
    (hheader : headerGet req.headers "authorization".toList = []) :
    (config.authorized req).1 = false := by
  have hanonymous : config.anonymous = false := by simp [CasterConfig.anonymous, hpassword]
  have hbasic : "basic ".toList.isPrefixOf (lower []) = false := rfl
  simp only [CasterConfig.authorized, hanonymous, hheader, hbasic, Bool.false_eq_true, if_false]

/-- The caster reads the verb, the version and the mountpoint the client was configured with,
and one that asks for a password lets the client in if and only if it gives the caster's
credentials. -/
theorem request_agrees (c : NtripClientConfig) (config : CasterConfig) (v2 : Bool)
    (hhost : '\r' ∉ c.host ∧ '\n' ∉ c.host) (hmount : Mountpoint c.mountpoint)
    (huser : ∀ username, c.username = some username → ':' ∉ username)
    (hpassword : config.password ≠ []) :
    (parseRequest (c.request v2)).method = "GET".toList ∧
      (parseRequest (c.request v2)).v2 = v2 ∧
      mountFromTarget (parseRequest (c.request v2)).path = c.mountpoint ∧
      ((config.authorized (parseRequest (c.request v2))).1 = true ↔
        ∃ username, c.username = some username ∧
          (username, c.password.getD []) = (config.username, config.password)) := by
  obtain ⟨hmethod, hpath, hversion, hheader⟩ := parseRequest_request hhost.1 hmount v2
  refine ⟨hmethod, hversion, hpath ▸ mountFromTarget_slash hmount, ?_⟩
  rcases hu : c.username with _ | username
  · rw [hu, Option.map_none, Option.getD_none] at hheader
    rw [authorized_nil config hpassword hheader]
    simp
  · rw [hu] at hheader
    rw [authorized_basic config c (huser username hu) hpassword hheader]
    simp

/-- A rover whose password has the separators in it. -/
def roverConfig : NtripClientConfig where
  host := "base.local".toList
  port := 2101
  mountpoint := "MTRK".toList
  username := some "rover".toList
  password := some ['a', ':', '\r', '\n', 'é']

def roverCaster : CasterConfig where
  mountpoint := "MTRK".toList
  username := "rover".toList
  password := ['a', ':', '\r', '\n', 'é']

theorem request_agrees_rover :
    mountFromTarget (parseRequest (roverConfig.request true)).path = "MTRK".toList ∧
      (roverCaster.authorized (parseRequest (roverConfig.request true))).1 = true := by
  have hprintable :
      (roverConfig.mountpoint.all fun c => 0x21 ≤ c.toNat ∧ c.toNat < 0x7F) = true := by decide
  have hmount : Mountpoint roverConfig.mountpoint :=
    ⟨by decide, by simpa [Printable] using hprintable, by decide, by decide⟩
  have huser : ∀ username, roverConfig.username = some username → ':' ∉ username := by
    intro username hu
    rw [← Option.some.inj hu]
    decide
  have hhost : '\r' ∉ roverConfig.host ∧ '\n' ∉ roverConfig.host := by decide
  have hpassword : roverCaster.password ≠ [] := List.cons_ne_nil _ _
  have hagree := request_agrees roverConfig roverCaster true hhost hmount huser hpassword
  exact ⟨hagree.2.2.1, hagree.2.2.2.2 ⟨"rover".toList, rfl, rfl⟩⟩

end Mtrtk
