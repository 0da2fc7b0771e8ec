import Mtrtk.Alerts
import Mtrtk.EnvFile

/-!
# A `.env` in a backup

`backup.py` : `masked_env` goes over the lines of a `.env` and writes `***` for every secret, also
for one in a comment, and for the password in a URL. A secret in quotes that are not closed on its
line goes on on the next lines, which are dropped up to one that closes them.

The URLs are read as `urllib.parse` reads them, but for what it asks of a host beyond its form
(`UrlParse`).
-/

namespace Mtrtk

open EnvFile

namespace Backup

/-- `MASK`. -/
def mask : Str := "***".toList

/-! ## URLs -/

/-- The parts of a URL. -/
structure SplitResult where
  scheme : Str
  netloc : Str
  path : Str
  query : Str
  fragment : Str
  deriving DecidableEq

/-- `"://"`. -/
def schemeMark : Str := "://".toList

/-- `SCHEMELESS_PREFIX`. -/
def schemelessPrefix : Str := "ntrip://".toList

/-- `[A-Za-z]`. -/
def isLetter (c : Char) : Bool := isKeyStart c && c ≠ '_'

/-- `[A-Za-z0-9+.-]`. -/
def isSchemeChar (c : Char) : Bool :=
  (isKeyChar c && c ≠ '_') || c = '+' || c = '.' || c = '-'

/-! ### `urllib.parse` -/

/-- What `urlsplit` asks of a netloc beyond its brackets being in pairs : `_check_bracketed_host`
and the NFKC form of `_checknetloc`. Where it is not so `ValueError` is raised. -/
class UrlParse where
  checkNetloc : Str → Bool

/-- The scheme before the first colon, and what is behind it. -/
def splitScheme (url : Str) : Str × Str :=
  match cut ':' url with
  | none => ([], url)
  | some (scheme, rest) =>
    if scheme.head?.any isLetter ∧ scheme.all isSchemeChar then (lower scheme, rest) else ([], url)

/-- No end of a netloc. -/
def isNetloc (c : Char) : Bool := c ∉ ['/', '?', '#']

/-- `_splitnetloc`, of what begins with `//`. -/
def splitNetloc (url : Str) : Str × Str :=
  if ['/', '/'].isPrefixOf url then
    ((url.drop 2).takeWhile isNetloc, (url.drop 2).dropWhile isNetloc)
  else ([], url)

/-- The characters `urlsplit` takes out. -/
def isKeptInUrl (c : Char) : Bool := c ∉ ['\t', '\r', '\n']

/-- `urlsplit`, `none` where it raises `ValueError`. -/
def urlsplit [UrlParse] (url : Str) : Option SplitResult :=
  let (scheme, url) := splitScheme ((url.dropWhile (·.toNat ≤ 0x20)).filter isKeptInUrl)
  let (netloc, url) := splitNetloc url
  if ¬('[' ∈ netloc ↔ ']' ∈ netloc) ∨ UrlParse.checkNetloc netloc = false then none
  else
    let (url, fragment) := (cut '#' url).getD (url, [])
    let (path, query) := (cut '?' url).getD (url, [])
    some { scheme, netloc, path, query, fragment }

/-- `urlunsplit`, of parts with a netloc. -/
def urlunsplit (parts : SplitResult) : Str :=
  let path := if parts.path.head?.all (· = '/') then parts.path else '/' :: parts.path
  let url := '/' :: '/' :: parts.netloc ++ path
  let url := if parts.scheme = [] then url else parts.scheme ++ ':' :: url
  let url := if parts.query = [] then url else url ++ '?' :: parts.query
  if parts.fragment = [] then url else url ++ '#' :: parts.fragment

/-! ### `mask_url_password` -/

/-- What `_SCHEME_RE` matches at the beginning, `""` where it does not. -/
def schemeAt (s : Str) : Str :=
  let scheme := s.takeWhile isSchemeChar
  if scheme.head?.any isLetter ∧ schemeMark.isPrefixOf (s.drop scheme.length) then
    scheme ++ schemeMark
  else []

/-- `_split_blindly`. -/
def splitBlindly (url : Str) : Option (Str × Str × Str × Str) :=
  match cutLast '@' url with
  | none => none
  | some (head, tail) =>
    let before := schemeAt head
    (cut ':' (head.drop before.length)).map fun parts => (before, parts.1, parts.2, tail)

/-- `_mask_blindly`. -/
def maskBlindly (url : Str) : Str :=
  match splitBlindly url with
  | none => url
  | some (before, user, _, tail) => before ++ user ++ ':' :: mask ++ '@' :: tail

/-- `_userinfo` : user, password, host and port. -/
def userinfo (netloc : Str) : Option (Str × Str × Str) :=
  match cutLast '@' netloc with
  | none => none
  | some (info, hostport) => (cut ':' info).map fun parts => (parts.1, parts.2, hostport)

/-- `_at_past_netloc`. -/
def atPastNetloc (parts : SplitResult) : Bool :=
  '@' ∈ parts.path || '@' ∈ parts.query || '@' ∈ parts.fragment

section Urls

variable [UrlParse]

/-- `_split_url`. -/
def splitUrl (url : Str) : Option (SplitResult × Bool) :=
  if occursIn schemeMark url then (urlsplit url).map (·, false)
  else (urlsplit (schemelessPrefix ++ url)).map (·, true)

/-- `_unsplit_url`. -/
def unsplitUrl (parts : SplitResult) (schemeless : Bool) : Str :=
  let url := urlunsplit parts
  if schemeless ∧ schemelessPrefix.isPrefixOf url then url.drop schemelessPrefix.length else url

/-- `mask_url_password`, of a `str`. -/
def maskUrlPassword (url : Str) : Str :=
  if url = [] then url
  else
    match splitUrl url with
    | none => maskBlindly url
    | some (parts, schemeless) =>
      match if atPastNetloc parts then none else userinfo parts.netloc with
      | none => maskBlindly url
      | some (user, _, hostport) =>
        unsplitUrl { parts with netloc := user ++ ':' :: mask ++ '@' :: hostport } schemeless

end Urls

/-- A code point as the flag `re.I` compares it with a small letter. -/
def foldChar (c : Char) : Char :=
  if c.toNat = 0x17F then 's'
  else if c.toNat = 0x212A then 'k'
  else if 0x41 ≤ c.toNat ∧ c.toNat ≤ 0x5A then Char.ofNat (c.toNat + 32)
  else c

/-- `token|key|secret|passw(?:or)?d`. -/
def queryWords : List Str :=
  ["token".toList, "key".toList, "secret".toList, "password".toList, "passwd".toList]

/-- `_QUERY_SECRET` at the beginning : `name` and `value`. -/
def queryAt : Str → Option (Str × Str)
  | [] => none
  | c :: cs =>
    let name := cs.takeWhile fun d => d ∉ ['=', '&', '#']
    match cs.drop name.length with
    | '=' :: rest =>
      if (c = '?' ∨ c = '&') ∧ queryWords.any fun word => occursIn word (name.map foldChar) then
        some (c :: name ++ ['='], rest.takeWhile fun d => d ∉ ['&', '#'])
      else none
    | _ => none

/-- `_QUERY_SECRET.sub`, of what is left, of which the first `skip` belong to a match. -/
def maskQueryFrom : ℕ → Str → Str
  | _, [] => []
  | skip + 1, _ :: cs => maskQueryFrom skip cs
  | 0, c :: cs =>
    match queryAt (c :: cs) with
    | some (name, value) =>
      name ++ (if value = [] then [] else mask) ++
        maskQueryFrom (name.length + value.length - 1) cs
    | none => c :: maskQueryFrom 0 cs

/-- `_mask_url`. -/
def maskUrl [UrlParse] (value : Str) : Str :=
  let masked := maskUrlPassword value
  if occursIn schemeMark masked then maskQueryFrom 0 masked else masked

/-! ## Secrets -/

/-- `SECRET_ENV_KEYS`. -/
def secretEnvKeys : List Str :=
  ["NTRIP_PASSWORD".toList, "WEB_PASSWORD".toList, "ALERT_WEBHOOK_URL".toList,
    "TUNNEL_TOKEN".toList, "MTRTK_WS_TOKEN".toList]

/-- `PASSWORD|PASSWD|TOKEN|SECRET|PRIVATE`. -/
def secretWords : List Str :=
  ["PASSWORD".toList, "PASSWD".toList, "TOKEN".toList, "SECRET".toList, "PRIVATE".toList]

/-- `API_?KEY(?:_|$)`, at the beginning. -/
def apiKeyAt (s : Str) : Bool :=
  ["API_KEY".toList, "APIKEY".toList].any fun word =>
    word.isPrefixOf s && (s.drop word.length).head?.all (· = '_')

/-- `_SECRET_NAME.search`. -/
def isSecretName (name : Str) : Bool :=
  secretWords.any (fun word => occursIn word name) || apiKeyAt name ||
    name.tails.any fun s => s.head? = some '_' && apiKeyAt s.tail

/-- `_is_secret_key`. -/
def isSecretKey (key : Str) : Bool :=
  secretEnvKeys.contains (upper key) || isSecretName (upper key)

/-! ## Lines -/

/-- `parse_assignment`. -/
def parseAssignment (raw : Str) : Option (Str × Str) :=
  (parseLine raw).map fun e => (e.key, e.value)

/-- `_COMMENTED.match` : `lead` and `body`. -/
def commented (line : Str) : Option (Str × Str) :=
  match line.dropWhile isGap with
  | '#' :: rest =>
    some (line.takeWhile isGap ++ '#' :: rest.takeWhile isGap, rest.dropWhile isGap)
  | _ => none

/-- `_is_comment`. -/
def isComment (line : Str) : Bool := (line.dropWhile isWhite).head? = some '#'

/-- `_OPEN_QUOTE.match` : `q` and `rest`. -/
def openQuote (line : Str) : Option (Char × Str) :=
  match cut '=' line with
  | none => none
  | some (_, value) =>
    match value.dropWhile isGap with
    | [] => none
    | q :: rest => if q = '"' ∨ q = '\'' then some (q, rest) else none

/-- `(?<!\\)` and the quote, behind a backslash or not. -/
def closesFrom (quote : Char) : Bool → Str → Bool
  | _, [] => false
  | escaped, c :: cs => (c = quote && !escaped) || closesFrom quote (c = '\\') cs

/-- `_closes`. -/
def closes (text : Str) (quote : Char) : Bool := closesFrom quote false text

section Prose

variable [PyUnicode]

/-- `\w`. -/
def isWord (c : Char) : Bool := PyUnicode.isalnum c || c = '_'

/-- `[,;.)]`. -/
def isTail (c : Char) : Bool := c ∈ [',', ';', '.', ')']

/-- `_PROSE_ASSIGNMENT` at the beginning : what `hide` returns, and how much is matched. -/
def proseAt (s : Str) : Option (Str × ℕ) :=
  let key := s.takeWhile isKeyChar
  let behind := s.drop key.length
  let gap := behind.takeWhile isGap
  match behind.drop gap.length with
  | '=' :: rest =>
    let eq := gap ++ '=' :: rest.takeWhile isGap
    let word := (rest.dropWhile isGap).takeWhile (!isWhite ·)
    if key.head?.any isKeyStart ∧ word ≠ [] then
      let tail := word.tail.rtakeWhile isTail
      let whole := key ++ eq ++ word
      some (if isSecretKey key then key ++ eq ++ mask ++ tail else whole, whole.length)
    else none
  | _ => none

/-- `_PROSE_ASSIGNMENT.sub`, of what is left behind a word or not, of which the first `skip`
belong to a match. -/
def maskProseFrom : Bool → ℕ → Str → Str
  | _, _, [] => []
  | _, skip + 1, c :: cs => maskProseFrom (isWord c) skip cs
  | word, 0, c :: cs =>
    match if word then none else proseAt (c :: cs) with
    | some (hidden, length) => hidden ++ maskProseFrom (isWord c) (length - 1) cs
    | none => c :: maskProseFrom (isWord c) 0 cs

/-- `_mask_prose`. -/
def maskProse (line : Str) : Str := maskProseFrom false 0 line

end Prose

/-! ## The text -/

/-- What a line assigns, or a comment would, and what comes before that. -/
def readLead (line : Str) : Str × Option (Str × Str) :=
  match parseAssignment line with
  | some parsed => ([], some parsed)
  | none =>
    match commented line with
    | some (lead, body) => (lead, parseAssignment body)
    | none => ([], none)

/-- What is written for a line that is not dropped. -/
def maskLine [PyUnicode] [UrlParse] (line : Str) : Str :=
  let (lead, parsed) := readLead line
  match parsed with
  | none => if isComment line then maskProse line else line
  | some (key, value) =>
    if value = [] then if isComment line then maskProse line else line
    else if isSecretKey key then lead ++ key ++ '=' :: mask
    else
      let masked := maskUrl value
      if masked = value then if lead ≠ [] then maskProse line else line
      else
        match encodeEnv masked with
        | .ok encoded => lead ++ key ++ '=' :: encoded
        | .error _ => lead ++ key ++ '=' :: mask

/-- The quote a secret of a line leaves open, as `_closes` sees it. -/
def openedQuote (line : Str) : Option Char :=
  match (readLead line).2 with
  | none => none
  | some (key, value) =>
    if value ≠ [] ∧ isSecretKey key then
      match openQuote line with
      | none => none
      | some (q, rest) => if closes rest q then none else some q
    else none

/-- The loop of `masked_env`, with `closing`. -/
def maskedLines [PyUnicode] [UrlParse] : Option Char → List Str → List Str
  | _, [] => []
  | some quote, line :: lines =>
    maskedLines (if closes line quote then none else some quote) lines
  | none, line :: lines => maskLine line :: maskedLines (openedQuote line) lines

/-- `text.removeprefix("\ufeff")`. -/
def removeBom (text : Str) : Str :=
  if text.head? = some (Char.ofNat 0xFEFF) then text.tail else text

/-- The lines of a `.env` text, of which a byte order mark is no part. -/
def envLines (text : Str) : List Str := splitlines (removeBom text)

/-- `masked_env`. -/
def maskedEnv [PyUnicode] [UrlParse] (text : Str) : Str :=
  joinLines (maskedLines none (envLines text))

end Backup

end Mtrtk
